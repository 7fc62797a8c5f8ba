import ExecutionFinality.Library.Runs
import ExecutionFinality.Reference.EffectReceipts

/-! One authority, any number of sinks over shared stores, and calls of `authorize`
and `effectuate` whose atomic sections interleave in any order. -/
namespace ExecutionFinality
open Function (update)

/-- What the repository signs. -/
inductive Artifact where
  | evidence (e : ValidationEvidence)
  | capability (cap : Capability)
  | receipt (r : SinkReceipt)
  | proof (p : PresentationProof)

def Artifact.unsigned : Artifact → PyVal
  | .evidence e => e.unsigned
  | .capability cap => cap.unsigned
  | .receipt r => r.unsigned
  | .proof p => p.unsigned

/-- What stays fixed over a run; `boundTo` is the effector whose handle a sink holds. -/
structure Deployment where
  pf : Platform
  authority : ProtectedAuthority
  sinks : Nat → FinalitySink
  boundTo : Nat → Nat
  presenters : Nat → Presenter

/-- How far a call of `authorize` has come. -/
inductive Authorizing where
  | idle
  | reserved (candidate : CandidateAct) (now : Int) (descriptor : HCAD) (transition : StateTransition)
  | evidenced (candidate : CandidateAct) (now : Int) (descriptor : HCAD) (transition : StateTransition)
      (evidence : ValidationEvidence)
  | returned (candidate : CandidateAct) (evidence : ValidationEvidence) (cap : Capability)
  | raised

/-- The arguments of a call of `effectuate` and the sink it is made at. -/
structure EffectuateArgs where
  sink : Nat
  candidate : CandidateAct
  cap : Capability
  now : Int
  presentationProof : Option PresentationProof

/-- How far a call of `effectuate` has come; `position` is the index of its record. -/
inductive Effectuating where
  | idle
  | verified (x : EffectuateArgs) (descriptorDigest : PyStr)
  | claimed (x : EffectuateArgs) (descriptorDigest : PyStr)
  | burned (x : EffectuateArgs)
  | committed (x : EffectuateArgs) (descriptorDigest : PyStr) (record : EffectRecord) (position : Nat)
  | returned (x : EffectuateArgs) (record : EffectRecord) (position : Nat)

structure System where
  state : ProtectedState
  evidence : EvidenceStore
  consumption : ConsumptionStore
  effectors : Nat → GuardedEffector
  authorizing : Nat → Authorizing
  effectuating : Nat → Effectuating
  signed : List (VerKey × Artifact)

/-- The log of signatures after one more by `a`. -/
def Deployment.signs (D : Deployment) (a : Authenticator) (m : Artifact) (signed : List (VerKey × Artifact)) :
    List (VerKey × Artifact) :=
  (a.signKey D.pf).elim signed fun key => (key,m) :: signed

inductive Action where
  | reserve (k : Nat) (candidate : CandidateAct) (cost now : Int)
  | commitEvidence (k : Nat)
  | issue (k : Nat)
  | verify (k : Nat) (x : EffectuateArgs)
  | claim (k : Nat)
  | commit (k : Nat)
  | receipt (k : Nat)
  | prove (presenter : Nat) (capabilityId candidateDigest sinkId boundaryId nonce : PyStr) (presentedAtNs : Int)
  | resign (authenticator : Authenticator) (m : Artifact)
  | configureSource (source : PyStr) (quota budget : Int)
  | setFailCommits (b : Bool)
  | setFailNext (effector : Nat)

/-- A call that raises without touching a store takes no further step. -/
inductive Step (D : Deployment) (s : System) : Action → System → Prop
  | reserve {k : Nat} {c : CandidateAct} {cost now : Int} {d : HCAD} {t : StateTransition}
      {state : ProtectedState} (hk : s.authorizing k = .idle) (ha : D.authority.admission D.pf c now = .ok d)
      (ht : s.state.transitionForAuthorization D.pf c cost = (.ok t,state)) :
    Step D s (.reserve k c cost now)
      { s with state, authorizing := update s.authorizing k (.reserved c now d t) }
  | refuse {k : Nat} {c : CandidateAct} {cost now : Int} {d : HCAD} {e : Exn}
      {state : ProtectedState} (hk : s.authorizing k = .idle) (ha : D.authority.admission D.pf c now = .ok d)
      (ht : s.state.transitionForAuthorization D.pf c cost = (.error e,state)) :
    Step D s (.reserve k c cost now) { s with state, authorizing := update s.authorizing k .raised }
  | commitEvidence {k : Nat} {c : CandidateAct} {now : Int} {d : HCAD} {t : StateTransition}
      {e : ValidationEvidence} {evidence : EvidenceStore} (hk : s.authorizing k = .reserved c now d t)
      (he : D.authority.evidence D.pf d c t now = .ok e) (hc : s.evidence.commit D.pf e = .ok evidence) :
    Step D s (.commitEvidence k)
      { s with
        evidence
        signed := D.signs D.authority.authenticator (.evidence e) s.signed
        authorizing := update s.authorizing k (.evidenced c now d t e) }
  | failEvidence {k : Nat} {c : CandidateAct} {now : Int} {d : HCAD} {t : StateTransition}
      {e : ValidationEvidence} {exn : Exn} (hk : s.authorizing k = .reserved c now d t)
      (he : D.authority.evidence D.pf d c t now = .ok e) (hc : s.evidence.commit D.pf e = .error exn) :
    Step D s (.commitEvidence k)
      { s with
        signed := D.signs D.authority.authenticator (.evidence e) s.signed
        authorizing := update s.authorizing k .raised }
  | issue {k : Nat} {c : CandidateAct} {now : Int} {d : HCAD} {t : StateTransition} {e : ValidationEvidence}
      {cap : Capability} (hk : s.authorizing k = .evidenced c now d t e)
      (hc : D.authority.capability D.pf d c t e now = .ok cap) :
    Step D s (.issue k)
      { s with
        signed := D.signs D.authority.authenticator (.capability cap) s.signed
        authorizing := update s.authorizing k (.returned c e cap) }
  | verify {k : Nat} {x : EffectuateArgs} {d : PyStr} (hk : s.effectuating k = .idle)
      (hv : (D.sinks x.sink).verify D.pf s.evidence s.state x.candidate x.cap x.now x.presentationProof = .ok d) :
    Step D s (.verify k x) { s with effectuating := update s.effectuating k (.verified x d) }
  | claim {k : Nat} {x : EffectuateArgs} {d : PyStr} {consumption : ConsumptionStore}
      (hk : s.effectuating k = .verified x d)
      (hc : s.consumption.claim x.cap.capabilityId (D.sinks x.sink).context.sinkId
        (D.sinks x.sink).context.boundaryId x.cap.nonce x.now = .ok consumption) :
    Step D s (.claim k) { s with consumption, effectuating := update s.effectuating k (.claimed x d) }
  | commit {k : Nat} {x : EffectuateArgs} {d : PyStr} {record : EffectRecord} {effector : GuardedEffector}
      (hk : s.effectuating k = .claimed x d)
      (hc : (s.effectors (D.boundTo x.sink)).commit D.pf x.candidate (D.sinks x.sink).marker =
        (.ok record,effector)) :
    Step D s (.commit k)
      { s with
        effectors := update s.effectors (D.boundTo x.sink) effector
        effectuating := update s.effectuating k
          (.committed x d record (s.effectors (D.boundTo x.sink)).records.length) }
  | failCommit {k : Nat} {x : EffectuateArgs} {d : PyStr} {exn : Exn} {effector : GuardedEffector}
      (hk : s.effectuating k = .claimed x d)
      (hc : (s.effectors (D.boundTo x.sink)).commit D.pf x.candidate (D.sinks x.sink).marker =
        (.error exn,effector)) :
    Step D s (.commit k)
      { s with
        effectors := update s.effectors (D.boundTo x.sink) effector
        effectuating := update s.effectuating k (.burned x) }
  | receipt {k : Nat} {x : EffectuateArgs} {d : PyStr} {record : EffectRecord} {position : Nat}
      {r : SinkReceipt} (hk : s.effectuating k = .committed x d record position)
      (hr : (D.sinks x.sink).receipt D.pf x.candidate x.cap d record x.now = .ok r) :
    Step D s (.receipt k)
      { s with
        signed := D.signs (D.sinks x.sink).receiptAuthenticator (.receipt r) s.signed
        effectuating := update s.effectuating k (.returned x record position) }
  | prove {i : Nat} {capabilityId candidateDigest sinkId boundaryId nonce : PyStr} {presentedAtNs : Int}
      {p : PresentationProof} (hp : (D.presenters i).prove D.pf capabilityId candidateDigest sinkId boundaryId
        nonce presentedAtNs = .ok p) :
    Step D s (.prove i capabilityId candidateDigest sinkId boundaryId nonce presentedAtNs)
      { s with signed := D.signs (D.presenters i).authenticator (.proof p) s.signed }
  | resign {a : Authenticator} {m : Artifact} {signature : PyStr} (hs : a.sign D.pf m.unsigned = .ok signature) :
    Step D s (.resign a m) { s with signed := D.signs a m s.signed }
  | configureSource (source : PyStr) (quota budget : Int) :
    Step D s (.configureSource source quota budget)
      { s with state := s.state.configureSource source quota budget }
  | setFailCommits (b : Bool) :
    Step D s (.setFailCommits b) { s with evidence := { s.evidence with failCommits := b } }
  | setFailNext (i : Nat) :
    Step D s (.setFailNext i)
      { s with effectors := update s.effectors i { s.effectors i with failNext := true } }

/-- Fresh stores, nothing signed and no call begun. -/
structure System.Initial (s : System) : Prop where
  nonces : ∀ n, s.state.nonces n = none
  transitions : ∀ t, s.state.transitions t = none
  evidence : ∀ e, s.evidence.records e = none
  claims : ∀ c, s.consumption.claims c = none
  records : ∀ i, (s.effectors i).records = []
  authorizing : ∀ k, s.authorizing k = .idle
  effectuating : ∀ k, s.effectuating k = .idle
  signed : s.signed = []

def Deployment.machine (D : Deployment) : Machine System Action where
  Init := System.Initial
  Step := Step D

namespace Effectuating

/-- The arguments, once they are verified. -/
def args? : Effectuating → Option EffectuateArgs
  | .idle => none
  | .verified x _ | .claimed x _ | .burned x | .committed x _ _ _ | .returned x _ _ => some x

/-- The arguments, once the claim is made. -/
def claim? : Effectuating → Option EffectuateArgs
  | .idle | .verified _ _ => none
  | .claimed x _ | .burned x | .committed x _ _ _ | .returned x _ _ => some x

/-- The arguments, the record and its position, once the effect has happened. -/
def effect? : Effectuating → Option (EffectuateArgs × EffectRecord × Nat)
  | .committed x _ record position | .returned x record position => some (x,record,position)
  | _ => none

theorem claim?_of_effect? {p : Effectuating} {y : EffectuateArgs × EffectRecord × Nat}
    (h : p.effect? = some y) : p.claim? = some y.1 := by
  cases p <;> cases h <;> rfl

theorem args?_of_claim? {p : Effectuating} {x : EffectuateArgs} (h : p.claim? = some x) : p.args? = some x := by
  cases p <;> first | exact h | cases h

end Effectuating

namespace Authorizing

/-- The evidence that a call has committed. -/
def evidence? : Authorizing → Option ValidationEvidence
  | .evidenced _ _ _ _ e | .returned _ e _ => some e
  | _ => none

/-- The candidate whose nonce a call has reserved. -/
def reserved? : Authorizing → Option CandidateAct
  | .reserved c _ _ _ | .evidenced c _ _ _ _ | .returned c _ _ => some c
  | _ => none

end Authorizing
end ExecutionFinality
