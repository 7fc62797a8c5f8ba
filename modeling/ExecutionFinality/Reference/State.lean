import ExecutionFinality.Reference.Models
import Mathlib.Logic.Function.Basic

/-! `state.py`: the protected authority state and the in-memory consumption store.
Each method body runs under the lock of its object. -/
namespace ExecutionFinality
open Function (update)

structure SourceState where
  version : Int
  quota : Int
  budget : Int

structure ProtectedState where
  defaultQuota : Int := 1000
  defaultBudget : Int := 1000
  sources : PyStr → Option SourceState := fun _ => none
  nonces : PyStr → Option PyStr := fun _ => none
  transitions : PyStr → Option StateTransition := fun _ => none

namespace ProtectedState

def configureSource (s : ProtectedState) (source : PyStr) (quota budget : Int) : ProtectedState :=
  { s with sources := update s.sources source (some ⟨0,quota,budget⟩) }

/-- `_get_source`: an unknown source is entered with the defaults. -/
def getSource (s : ProtectedState) (source : PyStr) : SourceState × ProtectedState :=
  match s.sources source with
  | some state => (state,s)
  | none =>
    let state := ⟨0,s.defaultQuota,s.defaultBudget⟩
    (state,{ s with sources := update s.sources source (some state) })

/-- `transition_core` -/
def transitionCore (t : StateTransition) (candidateDigest : PyStr) : List (String × PyVal) :=
  [("nonce",.str t.nonce),("source",.str t.source),("before_version",.int t.beforeVersion),
    ("after_version",.int t.afterVersion),("quota_before",.int t.quotaBefore),
    ("quota_after",.int t.quotaAfter),("budget_before",.int t.budgetBefore),
    ("budget_after",.int t.budgetAfter),("policy_epoch",.int t.policyEpoch),
    ("candidate_digest",.str candidateDigest)]

def nextTransition (pf : Platform) (state : SourceState) (candidate : CandidateAct) (cost : Int) :
    Except Exn StateTransition := do
  let t : StateTransition := {
    transitionId := []
    nonce := candidate.nonce
    source := candidate.source
    beforeVersion := state.version
    afterVersion := state.version + 1
    quotaBefore := state.quota
    quotaAfter := state.quota - 1
    budgetBefore := state.budget
    budgetAfter := state.budget - cost
    policyEpoch := candidate.policyEpoch }
  let transitionId ← pf.sha256Hex (.fields .dict (transitionCore t (← candidate.digest pf)))
  return { t with transitionId }

/-- The three assignments at the end of `transition_for_authorization`. -/
def record (s : ProtectedState) (t : StateTransition) : ProtectedState :=
  { s with
    sources := update s.sources t.source (some ⟨t.afterVersion,t.quotaAfter,t.budgetAfter⟩)
    nonces := update s.nonces t.nonce (some t.transitionId)
    transitions := update s.transitions t.transitionId (some t) }

def transitionForAuthorization (pf : Platform) (s : ProtectedState) (candidate : CandidateAct)
    (cost : Int) : Except Exn StateTransition × ProtectedState :=
  if cost ≤ 0 then (.error (.valueError (py "cost must be positive")),s)
  else if (s.nonces candidate.nonce).isSome then
    (.error (.replayDetected (py "nonce already reserved or consumed")),s)
  else
    -- The default entry of an unknown source stays when a later check fails.
    let (state,s) := s.getSource candidate.source
    if state.quota < 1 then (.error (.validationDenied (py "quota_exhausted")),s)
    else if state.budget < cost then (.error (.validationDenied (py "budget_exhausted")),s)
    else match nextTransition pf state candidate cost with
      | .error e => (.error e,s)
      | .ok t => (.ok t,s.record t)

def verifyTransition (s : ProtectedState) (transitionId : PyStr) (candidate : CandidateAct) : Bool :=
  match s.transitions transitionId with
  | none => false
  | some t => t.nonce = candidate.nonce ∧ t.source = candidate.source ∧
      t.policyEpoch = candidate.policyEpoch ∧ t.afterVersion = t.beforeVersion + 1 ∧
      t.quotaAfter = t.quotaBefore - 1 ∧ t.budgetAfter < t.budgetBefore ∧
      s.nonces candidate.nonce = some transitionId

/-- The copied counters of a source; asking for an unknown source enters it. -/
def snapshot (s : ProtectedState) (source : PyStr) : SourceState × ProtectedState := s.getSource source

theorem plain_transitionCore (t : StateTransition) (d : PyStr) :
    ∀ f ∈ transitionCore t d, f.2.Plain := by
  simp [transitionCore,PyVal.Plain]

/-- A transition identifier is for one candidate digest. -/
theorem digest_eq_of_transitionId {pf : Platform} (hcollision : pf.NoCollision) (hnfc : pf.nfc.FixesAscii)
    {t t' : StateTransition} {d d' i : PyStr} (hd : Platform.IsHex d) (hd' : Platform.IsHex d')
    (h : pf.sha256Hex (.fields .dict (transitionCore t d)) = .ok i)
    (h' : pf.sha256Hex (.fields .dict (transitionCore t' d')) = .ok i) : d = d' :=
  Platform.IsHex.eq_of_sameText hnfc hd hd' ((hcollision.sameNormal h h').text "candidate_digest"
    (by simp [transitionCore]) (by simp [transitionCore]))

/-- A transition identifier is for one nonce, in any of its spellings. -/
theorem sameText_of_transitionId {pf : Platform} (hcollision : pf.NoCollision) {t t' : StateTransition} {d d' i : PyStr}
    (h : pf.sha256Hex (.fields .dict (transitionCore t d)) = .ok i)
    (h' : pf.sha256Hex (.fields .dict (transitionCore t' d')) = .ok i) : SameText pf.nfc t.nonce t'.nonce :=
  (hcollision.sameNormal h h').text "nonce" (by simp [transitionCore]) (by simp [transitionCore])

@[simp] theorem getSource_nonces (s : ProtectedState) (source : PyStr) :
    (s.getSource source).2.nonces = s.nonces := by
  unfold getSource
  split <;> rfl

@[simp] theorem getSource_transitions (s : ProtectedState) (source : PyStr) :
    (s.getSource source).2.transitions = s.transitions := by
  unfold getSource
  split <;> rfl

theorem getSource_record (s : ProtectedState) (t : StateTransition) :
    (s.record t).getSource t.source = (⟨t.afterVersion,t.quotaAfter,t.budgetAfter⟩,s.record t) := by
  have h : (s.record t).sources t.source = some ⟨t.afterVersion,t.quotaAfter,t.budgetAfter⟩ :=
    Function.update_self ..
  simp only [getSource,h]

/-- A transition as `transition_for_authorization` makes it for a candidate. -/
structure Reserves (pf : Platform) (candidate : CandidateAct) (t : StateTransition) : Prop where
  nonce : t.nonce = candidate.nonce
  source : t.source = candidate.source
  policyEpoch : t.policyEpoch = candidate.policyEpoch
  version : t.afterVersion = t.beforeVersion + 1
  quota : t.quotaAfter = t.quotaBefore - 1
  budget : t.budgetAfter < t.budgetBefore
  transitionId : ∃ d, candidate.digest pf = .ok d ∧
    pf.sha256Hex (.fields .dict (transitionCore t d)) = .ok t.transitionId

theorem nextTransition_reserves {pf : Platform} {state : SourceState} {candidate : CandidateAct} {cost : Int}
    {t : StateTransition} (hc : 0 < cost) (h : nextTransition pf state candidate cost = .ok t) :
    Reserves pf candidate t := by
  simp only [nextTransition,CheckChains.bind_eq_ok,CheckChains.pure_eq_ok] at h
  obtain ⟨d,hd,i,hi,rfl⟩ := h
  exact ⟨rfl,rfl,rfl,rfl,rfl,by dsimp only; omega,d,hd,hi⟩

theorem nextTransition_after {pf : Platform} {state : SourceState} {candidate : CandidateAct} {cost : Int}
    {t : StateTransition} (h : nextTransition pf state candidate cost = .ok t) :
    t.afterVersion = state.version + 1 ∧ t.quotaAfter = state.quota - 1 ∧ t.budgetAfter = state.budget - cost := by
  simp only [nextTransition,CheckChains.bind_eq_ok,CheckChains.pure_eq_ok] at h
  obtain ⟨d,hd,i,hi,rfl⟩ := h
  exact ⟨rfl,rfl,rfl⟩

theorem nextTransition_before {pf : Platform} {state : SourceState} {candidate : CandidateAct} {cost : Int}
    {t : StateTransition} (h : nextTransition pf state candidate cost = .ok t) :
    t.beforeVersion = state.version ∧ t.quotaBefore = state.quota ∧ t.budgetBefore = state.budget := by
  simp only [nextTransition,CheckChains.bind_eq_ok,CheckChains.pure_eq_ok] at h
  obtain ⟨d,hd,i,hi,rfl⟩ := h
  exact ⟨rfl,rfl,rfl⟩

theorem transitionForAuthorization_eq_ok {pf : Platform} {s s' : ProtectedState} {candidate : CandidateAct}
    {cost : Int} {t : StateTransition} : s.transitionForAuthorization pf candidate cost = (.ok t,s') ↔
      0 < cost ∧ s.nonces candidate.nonce = none ∧ 1 ≤ (s.getSource candidate.source).1.quota ∧
      cost ≤ (s.getSource candidate.source).1.budget ∧
      nextTransition pf (s.getSource candidate.source).1 candidate cost = .ok t ∧
      s' = (s.getSource candidate.source).2.record t := by
  constructor
  · intro h
    unfold transitionForAuthorization at h
    split at h
    · cases h
    rename_i hcost
    split at h
    · cases h
    rename_i hn
    dsimp only at h
    split at h
    · cases h
    rename_i hq
    split at h
    · cases h
    rename_i hb
    split at h
    · cases h
    rename_i ht
    cases h
    exact ⟨by omega,by simpa using hn,by omega,by omega,ht,rfl⟩
  · rintro ⟨hc,hn,hq,hb,ht,rfl⟩
    unfold transitionForAuthorization
    rw [if_neg (by omega),if_neg (by simp [hn])]
    dsimp only
    rw [if_neg (by omega),if_neg (by omega),ht]

/-- A reservation needs a nonce that is new as the caller spells it. -/
theorem transitionForAuthorization_ok {pf : Platform} {s s' : ProtectedState} {candidate : CandidateAct}
    {cost : Int} {t : StateTransition} (h : s.transitionForAuthorization pf candidate cost = (.ok t,s')) :
    s.nonces candidate.nonce = none ∧ Reserves pf candidate t ∧
      s'.nonces = update s.nonces candidate.nonce (some t.transitionId) ∧
      s'.transitions = update s.transitions t.transitionId (some t) := by
  obtain ⟨hc,hn,_,_,ht,rfl⟩ := transitionForAuthorization_eq_ok.mp h
  have hr := nextTransition_reserves hc ht
  exact ⟨hn,hr,by simp [record,hr.nonce],by simp [record]⟩

/-- A refusal leaves the nonces and the transitions as they were. -/
theorem transitionForAuthorization_error {pf : Platform} {s s' : ProtectedState} {candidate : CandidateAct}
    {cost : Int} {e : Exn} (h : s.transitionForAuthorization pf candidate cost = (.error e,s')) :
    s'.nonces = s.nonces ∧ s'.transitions = s.transitions := by
  unfold transitionForAuthorization at h
  dsimp only at h
  split at h
  · cases h; exact ⟨rfl,rfl⟩
  split at h
  · cases h; exact ⟨rfl,rfl⟩
  split at h
  · cases h; simp
  split at h
  · cases h; simp
  split at h <;> cases h
  simp

theorem verifyTransition_eq_true {s : ProtectedState} {transitionId : PyStr} {candidate : CandidateAct} :
    s.verifyTransition transitionId candidate = true ↔ ∃ t, s.transitions transitionId = some t ∧
      t.nonce = candidate.nonce ∧ t.source = candidate.source ∧ t.policyEpoch = candidate.policyEpoch ∧
      t.afterVersion = t.beforeVersion + 1 ∧ t.quotaAfter = t.quotaBefore - 1 ∧
      t.budgetAfter < t.budgetBefore ∧ s.nonces candidate.nonce = some transitionId := by
  unfold verifyTransition
  split <;> simp_all

end ProtectedState

/-- `InMemoryConsumptionStore` -/
structure ConsumptionStore where
  claims : PyStr → Option (PyStr × PyStr × PyStr × Int) := fun _ => none

namespace ConsumptionStore

def claim (store : ConsumptionStore) (capabilityId sinkId boundaryId nonce : PyStr) (nowNs : Int) :
    Except Exn ConsumptionStore :=
  if (store.claims capabilityId).isSome then .error (.replayDetected (py "capability already consumed"))
  else .ok ⟨update store.claims capabilityId (some (sinkId,boundaryId,nonce,nowNs))⟩

def isClaimed (store : ConsumptionStore) (capabilityId : PyStr) : Bool := (store.claims capabilityId).isSome

theorem claim_eq_ok {store store' : ConsumptionStore} {capabilityId sinkId boundaryId nonce : PyStr}
    {nowNs : Int} : store.claim capabilityId sinkId boundaryId nonce nowNs = .ok store' ↔
      store.claims capabilityId = none ∧
        store' = ⟨update store.claims capabilityId (some (sinkId,boundaryId,nonce,nowNs))⟩ := by
  unfold claim
  split
  · rename_i h
    refine ⟨(nomatch ·),fun ⟨hn,_⟩ => ?_⟩
    rw [hn] at h
    cases h
  · rename_i h
    exact ⟨fun he => ⟨by simpa using h,(Except.ok.inj he).symm⟩,fun ⟨_,he⟩ => congrArg _ he.symm⟩

end ConsumptionStore
end ExecutionFinality
