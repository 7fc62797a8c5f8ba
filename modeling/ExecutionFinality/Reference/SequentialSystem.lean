import ExecutionFinality.Reference.NonceReuse
import ExecutionFinality.Reference.OutstandingCapabilities

/-! The system as it is meant: each call of `authorize` and of `effectuate` runs from its start to
its end before the next one begins. -/
namespace ExecutionFinality
open Function (update)
open Platform

/-- The stores and, for each call that was made, what it returned; a call that raised returned nothing. -/
structure SequentialSystem where
  state : ProtectedState
  evidence : EvidenceStore
  consumption : ConsumptionStore
  effectors : Nat → GuardedEffector
  authorized : Nat → Option (Option Capability)
  effectuated : Nat → Option (Option SinkReceipt)

inductive SequentialAction where
  | authorize (k : Nat) (candidate : CandidateAct) (cost now : Int)
  | effectuate (k : Nat) (x : EffectuateArgs)
  | configureSource (source : PyStr) (quota budget : Int)
  | setFailCommits (b : Bool)
  | setFailNext (effector : Nat)

/-- The step of the interleaved system that begins the call -/
def SequentialAction.call? : SequentialAction → Option Action
  | .authorize k c cost now => some (.reserve k c cost now)
  | .effectuate k x => some (.verify k x)
  | _ => none

inductive SequentialStep (D : Deployment) (q : SequentialSystem) : SequentialAction → SequentialSystem → Prop
  | authorize {k : Nat} {c : CandidateAct} {cost now : Int} {result : Except Exn Capability}
      {state : ProtectedState} {evidence : EvidenceStore} (hk : q.authorized k = none)
      (h : D.authority.authorize D.pf q.state q.evidence c cost now = (result,state,evidence)) :
    SequentialStep D q (.authorize k c cost now)
      { q with state, evidence, authorized := update q.authorized k (some result.toOption) }
  | effectuate {k : Nat} {x : EffectuateArgs} {result : Except Exn SinkReceipt} {consumption : ConsumptionStore}
      {effector : GuardedEffector} (hk : q.effectuated k = none)
      (h : (D.sinks x.sink).effectuate D.pf q.evidence q.state q.consumption (q.effectors (D.boundTo x.sink))
        x.candidate x.cap x.now x.presentationProof = (result,consumption,effector)) :
    SequentialStep D q (.effectuate k x)
      { q with
        consumption
        effectors := update q.effectors (D.boundTo x.sink) effector
        effectuated := update q.effectuated k (some result.toOption) }
  | configureSource (source : PyStr) (quota budget : Int) :
    SequentialStep D q (.configureSource source quota budget)
      { q with state := q.state.configureSource source quota budget }
  | setFailCommits (b : Bool) :
    SequentialStep D q (.setFailCommits b) { q with evidence := { q.evidence with failCommits := b } }
  | setFailNext (i : Nat) :
    SequentialStep D q (.setFailNext i)
      { q with effectors := update q.effectors i { q.effectors i with failNext := true } }

/-- Fresh stores, and no call made. -/
structure SequentialSystem.Initial (q : SequentialSystem) : Prop where
  nonces : ∀ n, q.state.nonces n = none
  transitions : ∀ t, q.state.transitions t = none
  evidence : ∀ e, q.evidence.records e = none
  claims : ∀ c, q.consumption.claims c = none
  records : ∀ i, (q.effectors i).records = []
  authorized : ∀ k, q.authorized k = none
  effectuated : ∀ k, q.effectuated k = none

namespace Deployment

def sequential (D : Deployment) : Machine SequentialSystem SequentialAction where
  Init := SequentialSystem.Initial
  Step := SequentialStep D

end Deployment

variable {D : Deployment}

namespace SequentialSystem
variable {q : SequentialSystem} {calls : Action → Prop} {k : Nat}

/-- Only these calls are made. -/
def Makes (calls : Action → Prop) (_ : SequentialSystem) (b : SequentialAction) : Prop :=
  ∀ a, b.call? = some a → calls a

theorem makes_of_none {b : SequentialAction} (h : b.call? = none) : Makes calls q b := by
  intro a ha
  rw [h] at ha
  cases ha

/-- A call of `authorize` in a sequential run, with evidence commits failing or not while it runs -/
theorem reaches_authorize {c : CandidateAct} {cost now : Int} {fails : Bool} {result : Except Exn Capability}
    {state : ProtectedState} (records : PyStr → Option ValidationEvidence) (hk : q.authorized k = none)
    (hcall : calls (.reserve k c cost now))
    (h : D.authority.authorize D.pf q.state { q.evidence with failCommits := fails } c cost now =
      (result,state,{ q.evidence with failCommits := fails, records })) :
    Machine.Reaches (D.sequential.startingAt q) (Makes calls)
      { q with
        state
        evidence := { q.evidence with records }
        authorized := update q.authorized k (some result.toOption) } := by
  let q₁ : SequentialSystem := { q with evidence := { q.evidence with failCommits := fails } }
  have h1 : Machine.Reaches (D.sequential.startingAt q) (Makes calls) q₁ :=
    Machine.reaches_of_step (a := .setFailCommits fails) (makes_of_none rfl) (SequentialStep.setFailCommits fails)
  have hstep := SequentialStep.authorize (D := D) (q := q₁) hk h
  have h2 := h1.step (by rintro _ ⟨⟩; exact hcall) hstep
  exact h2.step (a := .setFailCommits q.evidence.failCommits) (makes_of_none rfl) (SequentialStep.setFailCommits _)

/-- A verified call whose effect fails keeps its claim. -/
theorem effectuate_of_failed {pf : Platform} {sink : FinalitySink} {store : EvidenceStore} {state : ProtectedState}
    {consumption : ConsumptionStore} {effector effector' : GuardedEffector} {c : CandidateAct} {cap : Capability}
    {now : Int} {proof : Option PresentationProof} {exn : Exn}
    (hv : sink.Verified pf store state c cap now proof) (hfree : consumption.claims cap.capabilityId = none)
    (hc : effector.commit pf c sink.marker = (.error exn,effector')) :
    sink.effectuate pf store state consumption effector c cap now proof =
      (.error (.effectDenied exn.str),sink.claimed consumption cap now,effector') := by
  have hclaim : consumption.claim cap.capabilityId sink.context.sinkId sink.context.boundaryId cap.nonce now =
      .ok (sink.claimed consumption cap now) := ConsumptionStore.claim_eq_ok.mpr ⟨hfree,rfl⟩
  simp only [FinalitySink.effectuate,FinalitySink.verify_eq_ok.mpr ⟨hv,rfl⟩,hclaim,hc]

variable {x : EffectuateArgs}

/-- A verified call of `effectuate` in a sequential run whose effect fails -/
theorem reaches_burned (hk : q.effectuated k = none) (hcall : calls (.verify k x))
    (hv : (D.sinks x.sink).Verified D.pf q.evidence q.state x.candidate x.cap x.now x.presentationProof)
    (hfree : q.consumption.claims x.cap.capabilityId = none) :
    Machine.Reaches (D.sequential.startingAt q) (Makes calls)
      { q with
        consumption := (D.sinks x.sink).claimed q.consumption x.cap x.now
        effectuated := update q.effectuated k (some none) } := by
  have makes (q : SequentialSystem) : Makes calls q (.effectuate k x) := by
    rintro _ ⟨⟩
    exact hcall
  let effector := q.effectors (D.boundTo x.sink)
  -- The call with the effector in another state, and what it leaves of it
  have burn {e e' : GuardedEffector} {exn : Exn}
      (h : Machine.Reaches (D.sequential.startingAt q) (Makes calls)
        { q with effectors := update q.effectors (D.boundTo x.sink) e })
      (hc : e.commit D.pf x.candidate (D.sinks x.sink).marker = (.error exn,e')) :
      Machine.Reaches (D.sequential.startingAt q) (Makes calls)
        { q with
          effectors := update q.effectors (D.boundTo x.sink) e'
          consumption := (D.sinks x.sink).claimed q.consumption x.cap x.now
          effectuated := update q.effectuated k (some none) } := by
    have hstep := SequentialStep.effectuate (D := D)
      (q := { q with effectors := update q.effectors (D.boundTo x.sink) e }) hk
      (effectuate_of_failed hv hfree (by simpa only [Function.update_self] using hc))
    simp only [Function.update_idem] at hstep
    exact h.step (makes _) hstep
  by_cases hm : (D.sinks x.sink).marker = effector.marker
  · -- The downstream failure is injected before the call and, where it was due already, once more after it.
    have h1 : Machine.Reaches (D.sequential.startingAt q) (Makes calls)
        { q with effectors := update q.effectors (D.boundTo x.sink) { effector with failNext := true } } :=
      Machine.reaches_of_step (a := .setFailNext (D.boundTo x.sink)) (makes_of_none rfl) (SequentialStep.setFailNext _)
    have hc : GuardedEffector.commit D.pf { effector with failNext := true } x.candidate (D.sinks x.sink).marker =
        (.error (.osError (effector.channel ++ py ": injected downstream failure")),
          { effector with failNext := false }) := by
      unfold GuardedEffector.commit
      rw [if_neg (by simpa using hm),if_pos rfl]
    have h2 := burn h1 hc
    cases hf : effector.failNext with
    | false =>
      have he : { effector with failNext := false } = effector := by rw [← hf]
      rw [he,Function.update_eq_self] at h2
      exact h2
    | true =>
      have hsilent : ∀ q, Makes calls q (.setFailNext (D.boundTo x.sink)) := fun _ => makes_of_none rfl
      have h3 := h2.step (hsilent _) (SequentialStep.setFailNext _)
      have he : { effector with failNext := true } = effector := by rw [← hf]
      simp only [Function.update_self,Function.update_idem] at h3
      rw [he,Function.update_eq_self] at h3
      exact h3
  · have h1 : Machine.Reaches (D.sequential.startingAt q) (Makes calls)
        { q with effectors := update q.effectors (D.boundTo x.sink) effector } := by
      rw [Function.update_eq_self]
      exact .init rfl
    have h2 := burn h1 (if_pos hm)
    rwa [Function.update_eq_self] at h2

/-- The system before a call of `authorize` that found the given state and evidence -/
def beforeAuthorize (q : SequentialSystem) (k : Nat) (state : ProtectedState)
    (records : PyStr → Option ValidationEvidence) : SequentialSystem :=
  { q with state, evidence := { q.evidence with records }, authorized := update q.authorized k none }

theorem reaches_of_beforeAuthorize (fails : Bool) (result : Except Exn Capability) {c : CandidateAct} {cost now : Int}
    {state : ProtectedState} {records : PyStr → Option ValidationEvidence} (hcall : calls (.reserve k c cost now))
    (h : D.authority.authorize D.pf state { q.evidence with failCommits := fails, records } c cost now =
      (result,q.state,{ q.evidence with failCommits := fails })) (hresult : q.authorized k = some result.toOption) :
    Machine.Reaches (D.sequential.startingAt (q.beforeAuthorize k state records)) (Makes calls) q := by
  have hreach := reaches_authorize (q := q.beforeAuthorize k state records) q.evidence.records
    (Function.update_self ..) hcall h
  have hauthorized : update (update q.authorized k none) k (some result.toOption) = q.authorized := by
    rw [Function.update_idem,← hresult,Function.update_eq_self]
  simp only [beforeAuthorize,hauthorized] at hreach
  exact hreach

/-- The system before a call of `effectuate` that found these effectors and the identifier unclaimed -/
def beforeEffectuate (q : SequentialSystem) (k : Nat) (id : PyStr) (effectors : Nat → GuardedEffector) :
    SequentialSystem :=
  { q with
    consumption := ⟨update q.consumption.claims id none⟩
    effectors
    effectuated := update q.effectuated k none }

/-- The claim of a call is the one that it has made. -/
theorem claimed_again {claims : ConsumptionStore} (h : claims.claims x.cap.capabilityId =
      some ((D.sinks x.sink).context.sinkId,(D.sinks x.sink).context.boundaryId,x.cap.nonce,x.now)) :
    (D.sinks x.sink).claimed ⟨update claims.claims x.cap.capabilityId none⟩ x.cap x.now = claims := by
  simp only [FinalitySink.claimed,Function.update_idem]
  rw [← h,Function.update_eq_self]

theorem reaches_of_beforeEffectuate {effectors : Nat → GuardedEffector} {effector : GuardedEffector}
    {result : Except Exn SinkReceipt} (hcall : calls (.verify k x))
    (h : (D.sinks x.sink).effectuate D.pf q.evidence q.state ⟨update q.consumption.claims x.cap.capabilityId none⟩
      (effectors (D.boundTo x.sink)) x.candidate x.cap x.now x.presentationProof = (result,q.consumption,effector))
    (heffectors : q.effectors = update effectors (D.boundTo x.sink) effector)
    (hresult : q.effectuated k = some result.toOption) :
    Machine.Reaches (D.sequential.startingAt (q.beforeEffectuate k x.cap.capabilityId effectors)) (Makes calls) q := by
  have hstep := SequentialStep.effectuate (D := D) (q := q.beforeEffectuate k x.cap.capabilityId effectors)
    (Function.update_self ..) h
  have heffectuated : update (update q.effectuated k none) k (some result.toOption) = q.effectuated := by
    rw [Function.update_idem,← hresult,Function.update_eq_self]
  simp only [beforeEffectuate,heffectuated,← heffectors] at hstep
  exact Machine.reaches_of_step (by rintro _ ⟨⟩; exact hcall) hstep

theorem reaches_of_beforeBurned (hcall : calls (.verify k x))
    (hv : (D.sinks x.sink).Verified D.pf q.evidence q.state x.candidate x.cap x.now x.presentationProof)
    (hclaim : q.consumption.claims x.cap.capabilityId =
      some ((D.sinks x.sink).context.sinkId,(D.sinks x.sink).context.boundaryId,x.cap.nonce,x.now))
    (hresult : q.effectuated k = some none) :
    Machine.Reaches (D.sequential.startingAt (q.beforeEffectuate k x.cap.capabilityId q.effectors)) (Makes calls) q := by
  have hreach := reaches_burned (D := D) (q := q.beforeEffectuate k x.cap.capabilityId q.effectors)
    (Function.update_self ..) hcall hv (Function.update_self ..)
  have heffectuated : update (update q.effectuated k none) k (some none) = q.effectuated := by
    rw [Function.update_idem,← hresult,Function.update_eq_self]
  simp only [beforeEffectuate,heffectuated,claimed_again hclaim] at hreach
  exact hreach

end SequentialSystem

end ExecutionFinality
