import ExecutionFinality.Reference.Crypto
import ExecutionFinality.Reference.Models

/-! `pop.py` and `effectors.py`: presentation proofs and the guarded effect boundary. -/
namespace ExecutionFinality

structure PresentationProof where
  capabilityId : PyStr
  candidateDigest : PyStr
  sinkId : PyStr
  boundaryId : PyStr
  nonce : PyStr
  presentedAtNs : Int
  presenterKeyId : PyStr
  signature : PyStr

def PresentationProof.fields (p : PresentationProof) : List (String × PyVal) :=
  [("capability_id",.str p.capabilityId),("candidate_digest",.str p.candidateDigest),
    ("sink_id",.str p.sinkId),("boundary_id",.str p.boundaryId),("nonce",.str p.nonce),
    ("presented_at_ns",.int p.presentedAtNs),("presenter_key_id",.str p.presenterKeyId)]

def PresentationProof.unsigned (p : PresentationProof) : PyVal := .fields .dict p.fields

structure Presenter where
  authenticator : Authenticator

def Presenter.prove (pf : Platform) (self : Presenter)
    (capabilityId candidateDigest sinkId boundaryId nonce : PyStr) (presentedAtNs : Int) :
    Except Exn PresentationProof := do
  let p : PresentationProof := {
    capabilityId,candidateDigest,sinkId,boundaryId,nonce,presentedAtNs
    presenterKeyId := self.authenticator.keyId
    signature := [] }
  return { p with signature := ← self.authenticator.sign pf p.unsigned }

/-- A proof carries the fields it was made for. -/
theorem Presenter.prove_fields {pf : Platform} {self : Presenter}
    {capabilityId candidateDigest sinkId boundaryId nonce : PyStr} {presentedAtNs : Int} {p : PresentationProof}
    (h : self.prove pf capabilityId candidateDigest sinkId boundaryId nonce presentedAtNs = .ok p) :
    self.prove pf p.capabilityId p.candidateDigest p.sinkId p.boundaryId p.nonce p.presentedAtNs = .ok p := by
  have hp := h
  simp only [Presenter.prove,CheckChains.bind_eq_ok,CheckChains.pure_eq_ok] at hp
  obtain ⟨_,_,rfl⟩ := hp
  exact h

structure PresenterVerifierRegistry where
  verifiers : PyStr → Option Authenticator

def PresenterVerifierRegistry.verify (pf : Platform) (r : PresenterVerifierRegistry)
    (proof : PresentationProof) : Except Exn Bool :=
  match r.verifiers proof.presenterKeyId with
  | none => .ok false
  | some verifier => verifier.verify pf proof.unsigned proof.signature proof.presenterKeyId

theorem PresenterVerifierRegistry.verify_eq_true {pf : Platform} {r : PresenterVerifierRegistry}
    {proof : PresentationProof} : r.verify pf proof = .ok true ↔ ∃ v, r.verifiers proof.presenterKeyId = some v ∧
      v.verify pf proof.unsigned proof.signature proof.presenterKeyId = .ok true := by
  unfold PresenterVerifierRegistry.verify
  split <;> simp_all

structure EffectRecord where
  channel : PyStr
  candidateDigest : PyStr
  effectReference : PyStr
  payload : PyVal

/-- Markers are compared by identity; a marker is the number of its allocation. -/
structure GuardedEffector where
  channel : PyStr
  marker : Nat
  records : List EffectRecord := []
  failNext : Bool := false

namespace GuardedEffector

def directEffect (self : GuardedEffector) (_candidate : CandidateAct) : Except Exn EffectRecord :=
  .error (.effectDenied (self.channel ++ py ": direct effect path denied; Finality Sink required"))

/-- The record that `_commit` appends -/
def newRecord (pf : Platform) (self : GuardedEffector) (candidate : CandidateAct) : Except Exn EffectRecord := do
  let candidateDigest ← candidate.digest pf
  let ref ← pf.sha256Hex (.fields .dict [("channel",.str self.channel),
    ("candidate_digest",.str candidateDigest),("ordinal",.int self.records.length)])
  return ⟨self.channel,candidateDigest,ref,candidate.payload⟩

/-- `_commit` -/
def commit (pf : Platform) (self : GuardedEffector) (candidate : CandidateAct) (marker : Nat) :
    Except Exn EffectRecord × GuardedEffector :=
  if marker ≠ self.marker then
    (.error (.effectDenied (self.channel ++ py ": invalid sink invocation")),self)
  else if self.failNext then
    (.error (.osError (self.channel ++ py ": injected downstream failure")),{ self with failNext := false })
  else match self.newRecord pf candidate with
    | .error e => (.error e,self)
    | .ok rec => (.ok rec,{ self with records := self.records ++ [rec] })

end GuardedEffector

namespace GuardedEffector
variable {pf : Platform} {effector effector' : GuardedEffector} {candidate : CandidateAct} {marker : Nat}
  {record : EffectRecord}

/-- A commit that returns appends one record, of the candidate it was given. -/
theorem commit_ok : effector.commit pf candidate marker = (.ok record,effector') ↔
    marker = effector.marker ∧ effector.failNext = false ∧ effector.newRecord pf candidate = .ok record ∧
      effector' = { effector with records := effector.records ++ [record] } := by
  unfold commit
  split
  · rename_i hm
    exact ⟨(nomatch ·),fun h => absurd h.1 hm⟩
  rename_i hm
  split
  · rename_i hf
    refine ⟨(nomatch ·),fun h => ?_⟩
    rw [hf] at h
    exact nomatch h.2.1
  rename_i hf
  split
  · rename_i he
    refine ⟨(nomatch ·),fun h => ?_⟩
    rw [he] at h
    exact nomatch h.2.2.1
  · rename_i rec hr
    rw [hr]
    constructor
    · intro h
      cases h
      exact ⟨not_not.mp hm,Bool.eq_false_iff.mpr hf,rfl,rfl⟩
    · rintro ⟨_,_,h,rfl⟩
      cases h
      rfl

/-- A commit that raises appends none. -/
theorem commit_error {e : Exn} (h : effector.commit pf candidate marker = (.error e,effector')) :
    effector'.records = effector.records := by
  unfold commit at h
  split at h
  · cases h; rfl
  split at h
  · cases h; rfl
  split at h <;> cases h
  rfl

theorem newRecord_eq_ok : effector.newRecord pf candidate = .ok record ↔
    candidate.digest pf = .ok record.candidateDigest ∧ record.channel = effector.channel ∧
      record.payload = candidate.payload ∧
      pf.sha256Hex (.fields .dict [("channel",.str effector.channel),
        ("candidate_digest",.str record.candidateDigest),("ordinal",.int effector.records.length)]) =
          .ok record.effectReference := by
  simp only [newRecord,CheckChains.bind_eq_ok,CheckChains.pure_eq_ok]
  constructor
  · rintro ⟨d,hd,r,hr,rfl⟩
    exact ⟨hd,rfl,rfl,hr⟩
  · intro h
    obtain ⟨ch,d,r,p⟩ := record
    obtain ⟨hd,rfl,rfl,hr⟩ := h
    exact ⟨d,hd,r,hr,rfl⟩

end GuardedEffector
end ExecutionFinality
