import ExecutionFinality.Reference.SqliteClaims
import ExecutionFinality.Reference.VolatileStores

/-! The system on `SQLiteConsumptionStore`: a sink claims statement by statement, in a process that may
die between any two of them, while the protected state and the evidence may be lost. -/
namespace ExecutionFinality
open Function (update)
open Platform

/-- The system whose consumption store is the table of a file. -/
structure DurableSystem where
  state : ProtectedState
  evidence : EvidenceStore
  effectors : Nat → GuardedEffector
  authorizing : Nat → Authorizing
  effectuating : Nat → Effectuating
  signed : List (VerKey × Artifact)
  store : SqliteClaims

/-- The call of `claim` that a call of `effectuate` makes -/
def Deployment.claimArgs (D : Deployment) (x : EffectuateArgs) : ClaimArgs :=
  ⟨x.cap.capabilityId,(D.sinks x.sink).context.sinkId,(D.sinks x.sink).context.boundaryId,x.cap.nonce,x.now⟩

def ClaimCall.args? : ClaimCall → Option ClaimArgs
  | .idle => none
  | .connected x | .begun x | .inserted x | .duplicate x | .committed x | .raising x _ | .returned x | .raised x _
  | .crashed x | .crashedCommitted x => some x

namespace DurableSystem

/-- The system as its own steps see it, with the committed rows for claims -/
def view (s : DurableSystem) : System :=
  ⟨s.state,s.evidence,⟨s.store.file.committed⟩,s.effectors,s.authorizing,s.effectuating,s.signed⟩

/-- The system after a step that leaves the table -/
def withView (s : DurableSystem) (v : System) : DurableSystem :=
  ⟨v.state,v.evidence,v.effectors,v.authorizing,v.effectuating,v.signed,s.store⟩

end DurableSystem

inductive DurableAction where
  | own (a : VolatileAction)
  | statement (k : Nat)
  | proceed (k : Nat)

/-- The claim of a call of `effectuate` is a call on the file under the same number; when it raises or its process
dies, the call of `effectuate` goes no further. -/
inductive DurableStep (D : Deployment) (s : DurableSystem) : DurableAction → DurableSystem → Prop
  | own {a : VolatileAction} {v : System} (ha : ∀ k, a ≠ .own (.claim k)) (hs : VolatileStep D s.view a v) :
    DurableStep D s (.own a) (s.withView v)
  | statement {k : Nat} {x : EffectuateArgs} {d : PyStr} {store : SqliteClaims} (hk : s.effectuating k = .verified x d)
      (hs : ClaimStep s.store k store) (hargs : (store.calls k).args? = some (D.claimArgs x)) :
    DurableStep D s (.statement k) { s with store }
  | proceed {k : Nat} {x : EffectuateArgs} {d : PyStr} (hk : s.effectuating k = .verified x d)
      (hr : s.store.calls k = .returned (D.claimArgs x)) :
    DurableStep D s (.proceed k) { s with effectuating := update s.effectuating k (.claimed x d) }

/-- The system begins with an empty table. -/
def Deployment.durable (D : Deployment) : Machine DurableSystem DurableAction where
  Init s := s.view.Initial ∧ s.store.file.writer = none ∧ ∀ k, s.store.calls k = .idle
  Step := DurableStep D

/-- What is asked of the steps of the system itself -/
def DurableAction.Meets (allowed : System → Action → Prop) (s : DurableSystem) : DurableAction → Prop
  | .own a => a.Meets allowed s.view
  | _ => True

/-- The row of the call is committed. -/
def ClaimCall.hasClaimed : ClaimCall → Bool
  | .committed _ | .returned _ | .crashedCommitted _ => true
  | _ => false

/-- A verified call whose row is committed has made its claim. -/
def Effectuating.withClaim (c : ClaimCall) : Effectuating → Effectuating
  | .verified x d => if c.hasClaimed then .claimed x d else .verified x d
  | p => p

namespace DurableSystem
variable {D : Deployment} {s s' : DurableSystem} {allowed : System → Action → Prop}

/-- The system on the atomic store that the durable one stands for -/
def abstract (s : DurableSystem) : System :=
  { s.view with effectuating := fun k => (s.effectuating k).withClaim (s.store.calls k) }

/-- The file is consistent, and who is not verified has not begun a claim. -/
structure Consistent (s : DurableSystem) : Prop where
  file : s.store.Consistent
  idle : ∀ k, s.effectuating k = .idle → s.store.calls k = .idle

theorem withClaim_update {f : Nat → Effectuating} {c : Nat → ClaimCall} {k : Nat} {p : Effectuating} :
    (fun j => (update f k p j).withClaim (c j)) =
      update (fun j => (f j).withClaim (c j)) k (p.withClaim (c k)) := by
  funext j
  by_cases hj : j = k
  · subst hj
    rw [Function.update_self,Function.update_self]
  · rw [Function.update_of_ne hj,Function.update_of_ne hj]

theorem withClaim_update_call {f : Nat → Effectuating} {c : Nat → ClaimCall} {k : Nat} {p : ClaimCall} :
    (fun j => (f j).withClaim (update c k p j)) =
      update (fun j => (f j).withClaim (c j)) k ((f k).withClaim p) := by
  funext j
  by_cases hj : j = k
  · subst hj
    rw [Function.update_self,Function.update_self]
  · rw [Function.update_of_ne hj,Function.update_of_ne hj]

end DurableSystem

namespace Step
variable {D : Deployment} {s s' : System} {a : Action} {k : Nat}

/-- No step takes a call back to before it was verified. -/
theorem effectuating_idle (hs : Step D s a s') (h : s'.effectuating k = .idle) : s.effectuating k = .idle := by
  cases hs with
  | verify | claim | commit | failCommit | receipt =>
    rcases update_cases h with ⟨_,hv⟩ | ⟨_,h⟩
    · cases hv
    · exact h
  | _ => exact h

end Step

namespace DurableSystem
variable {D : Deployment} {s s' : DurableSystem} {allowed : System → Action → Prop}

theorem consistent_preserved {allowed : DurableSystem → DurableAction → Prop} :
    Machine.Preserved D.durable allowed Consistent where
  init s h := ⟨fun k => by rw [h.2.2 k]; trivial,fun k _ => h.2.2 k⟩
  step := by
    intro s a s' _ h _ hs
    cases hs with
    | own ha hs =>
      refine ⟨h.file,fun k hk => h.idle k ?_⟩
      cases hs with
      | own hs => exact hs.effectuating_idle hk
      | replace | restart => exact hk
    | @statement k x d store hk hs =>
      refine ⟨h.file.step hs,fun j hj => ?_⟩
      have hne : j ≠ k := by
        rintro rfl
        cases hk.symm.trans hj
      exact (SqliteClaims.calls_of_ne hs hne).trans (h.idle j hj)
    | proceed hk hr =>
      refine ⟨h.file,fun j hj => ?_⟩
      rcases update_cases hj with ⟨_,hv⟩ | ⟨_,hj⟩
      · cases hv
      · exact h.idle j hj

private theorem abstract_withView {v : System} {k : Nat} {p : Effectuating}
    (hv : v.effectuating = update s.effectuating k p) (hp : p.withClaim (s.store.calls k) = p) :
    (s.withView v).abstract = ⟨v.state,v.evidence,⟨s.store.file.committed⟩,v.effectors,v.authorizing,
      update s.abstract.effectuating k p,v.signed⟩ := by
  simp only [abstract,withView,view,hv,withClaim_update,hp]

/-- A step that is no claim is a step of the system on the atomic store. -/
theorem own_step {a : Action} {v : System} (hidle : ∀ k, s.effectuating k = .idle → s.store.calls k = .idle)
    (ha : ∀ k, a ≠ .claim k) (hs : Step D s.view a v) : Step D s.abstract a (s.withView v).abstract := by
  have phase {k : Nat} {p : Effectuating} (hk : s.view.effectuating k = p)
      (hp : p.withClaim (s.store.calls k) = p) : s.abstract.effectuating k = p := by
    have hk : s.effectuating k = p := hk
    simp only [abstract,hk,hp]
  cases hs with
  | reserve hk hadm ht => exact .reserve hk hadm ht
  | refuse hk hadm ht => exact .refuse hk hadm ht
  | commitEvidence hk he hc => exact .commitEvidence hk he hc
  | failEvidence hk he hc => exact .failEvidence hk he hc
  | issue hk hc => exact .issue hk hc
  | prove hp => exact .prove hp
  | resign hs => exact .resign hs
  | configureSource => exact .configureSource ..
  | setFailCommits => exact .setFailCommits ..
  | setFailNext => exact .setFailNext ..
  | claim => exact absurd rfl (ha _)
  | @verify k x d hk hv =>
    have hcall : s.store.calls k = .idle := hidle k hk
    rw [abstract_withView rfl (by rw [hcall]; rfl)]
    exact .verify (phase hk rfl) hv
  | commit hk hc =>
    rw [abstract_withView rfl rfl]
    exact .commit (phase hk rfl) hc
  | failCommit hk hc =>
    rw [abstract_withView rfl rfl]
    exact .failCommit (phase hk rfl) hc
  | receipt hk hr =>
    rw [abstract_withView rfl rfl]
    exact .receipt (phase hk rfl) hr

/-- A statement that commits no row is not seen in the atomic store. -/
theorem abstract_statement {k : Nat} {store : SqliteClaims} (hs : ClaimStep s.store k store)
    (hcommitted : store.file.committed = s.store.file.committed)
    (hclaims : (store.calls k).hasClaimed = (s.store.calls k).hasClaimed) :
    ({ s with store } : DurableSystem).abstract = s.abstract := by
  have hcalls (j : Nat) : (store.calls j).hasClaimed = (s.store.calls j).hasClaimed := by
    by_cases hj : j = k
    · rw [hj,hclaims]
    · rw [SqliteClaims.calls_of_ne hs hj]
  have heffectuating (j : Nat) : (s.effectuating j).withClaim (store.calls j) =
      (s.effectuating j).withClaim (s.store.calls j) := by
    unfold Effectuating.withClaim
    rw [hcalls]
  simp only [abstract,view,hcommitted,heffectuating]

theorem unclaimed_of_statement {p : ClaimCall} {y : ClaimArgs} (h : p.statement? = some y) : p.hasClaimed = false := by
  cases p <;> first | rfl | cases h

theorem statement_step {k : Nat} {x : EffectuateArgs} {d : PyStr} {store : SqliteClaims} (h : s.store.Consistent)
    (hk : s.effectuating k = .verified x d) (hs : ClaimStep s.store k store)
    (hargs : (store.calls k).args? = some (D.claimArgs x)) :
    ({ s with store } : DurableSystem).abstract = s.abstract ∨
      Step D s.abstract (.claim k) ({ s with store } : DurableSystem).abstract := by
  have hold := h k
  have quiet := abstract_statement hs
  cases hs with
  | connect y hc | failConnect y hc | insert hc | integrityError hc =>
    exact .inl (quiet rfl (by simp [hc,ClaimCall.hasClaimed]))
  | beginImmediate hc hf =>
    obtain ⟨_,rfl⟩ := SingleWriter.begin_eq_some.mp hf
    exact .inl (quiet rfl (by simp [hc,ClaimCall.hasClaimed]))
  | rollback hc | closeRaising hc | closeReturning hc | crashCommitted hc =>
    exact .inl (quiet SingleWriter.discard_committed (by simp [hc,ClaimCall.hasClaimed]))
  | fail hc hf =>
    refine .inl (quiet ?_ (by rw [unclaimed_of_statement hc]; simp [ClaimCall.hasClaimed]))
    rcases hf with rfl | rfl
    · rfl
    · exact SingleWriter.discard_committed
  | crash hc =>
    refine .inl (quiet SingleWriter.discard_committed ?_)
    rcases hc with hc | ⟨e,hc⟩
    · rw [unclaimed_of_statement hc]
      simp [ClaimCall.hasClaimed]
    · rw [hc]
      simp [ClaimCall.hasClaimed]
  | @commit y file hc hf =>
    rw [hc] at hold
    obtain ⟨hnew,hview⟩ := hold
    obtain ⟨rows,hv,rfl⟩ := SingleWriter.commit_eq_some.mp hf
    cases hv.symm.trans hview
    dsimp only at hargs
    rw [Function.update_self] at hargs
    cases hargs
    have hphase : s.abstract.effectuating k = .verified x d := by
      simp only [abstract,hk,hc]
      rfl
    have hstep := Step.claim (D := D) (s := s.abstract) hphase (ConsumptionStore.claim_eq_ok.mpr ⟨hnew,rfl⟩)
    have heffectuating : (fun j => (s.effectuating j).withClaim (update s.store.calls k (.committed (D.claimArgs x)) j)) =
        update s.abstract.effectuating k (.claimed x d) := by
      rw [withClaim_update_call,hk]
      rfl
    refine .inr ?_
    rw [← heffectuating] at hstep
    exact hstep

/-- The system on the file does what the system on the atomic store does: a claim is made with its COMMIT. -/
theorem durable_simulates {allowed : System → Action → Prop} (hclaim : ∀ s k, allowed s (.claim k))
    (hsees : ∀ (s : DurableSystem) a, allowed s.view a → allowed s.abstract a) :
    Machine.BackwardSimulates D.durable (DurableAction.Meets allowed) D.volatile (VolatileAction.Meets allowed)
      (fun s t => t = s.abstract) where
  init := by
    rintro s _ ⟨h,_,hcalls⟩ rfl
    refine { h with effectuating := fun k => ?_ }
    have hk : s.effectuating k = .idle := h.effectuating k
    simp only [abstract,hk]
    rfl
  step := by
    rintro s a s' _ hr ha hs rfl
    have hc := hr.invariant consistent_preserved
    refine ⟨s.abstract,rfl,?_⟩
    have stays (he : s'.abstract = s.abstract) : Machine.Reaches (D.volatile.startingAt s.abstract)
        (VolatileAction.Meets allowed) s'.abstract := he ▸ .init rfl
    cases hs with
    | @own a v hnot hs =>
      cases hs with
      | @own a _ hs =>
        exact Machine.reaches_of_step (a := .own a) (hsees s a ha)
          (.own (own_step hc.idle (fun k hk => hnot k (congrArg _ hk)) hs))
      | replace e => exact Machine.reaches_of_step (a := .replace e) trivial (.replace e)
      | restart hnonces htransitions hevidence =>
        exact Machine.reaches_of_step (a := .restart _ _) trivial (.restart hnonces htransitions hevidence)
    | statement hk hs hargs =>
      rcases statement_step hc.file hk hs hargs with he | hstep
      · exact stays he
      · exact Machine.reaches_of_step (a := .own (.claim _)) (hclaim _ _) (.own hstep)
    | @proceed k x d hk hr =>
      refine stays ?_
      have hphase : s.abstract.effectuating k = .claimed x d := by
        simp only [abstract,hk,hr]
        rfl
      have heffectuating : (fun j => (update s.effectuating k (.claimed x d) j).withClaim (s.store.calls j)) =
          s.abstract.effectuating := by
        rw [withClaim_update]
        exact (congrArg _ hphase.symm).trans (Function.update_eq_self k s.abstract.effectuating)
      have hview : ({ s with effectuating := update s.effectuating k (.claimed x d) } : DurableSystem).abstract =
          { s.abstract with effectuating :=
            fun j => (update s.effectuating k (.claimed x d) j).withClaim (s.store.calls j) } := rfl
      rw [hview,heffectuating]

/-- On the file of `SQLiteConsumptionStore`, whatever statement fails or process dies, however evidence is overwritten
and whenever the process is restarted with its other stores lost, the effect records inject into the successful calls
of `authorize`, each into the call that authorized its act, and the row of each effect is committed. -/
theorem durable_effects_authorized (hrigid : D.pf.nfc.HexRigid) (h : Machine.Reaches D.durable
    (DurableAction.Meets fun s a => NotResigned a ∧ CapabilityUnforged D s a) s) :
    (∃ f : {p : Nat × Nat // p.2 < (s.effectors p.1).records.length} → Nat, Function.Injective f ∧
      ∀ p, ∃ c e cap r, s.authorizing (f p) = .returned c e cap ∧
        (s.effectors p.1.1).records[p.1.2]? = some r ∧ c.digest D.pf = .ok r.candidateDigest) ∧
    ∀ k x r i, (s.effectuating k).effect? = some (x,r,i) →
      s.store.file.committed x.cap.capabilityId = some (D.claimArgs x).row := by
  have hvolatile := h.simulate (durable_simulates (D := D) (fun _ _ => ⟨trivial,trivial⟩) fun _ a ha => by
    cases a <;> exact ha) rfl
  have hholds := holdsVolatile hvolatile
  refine ⟨hholds.effects_authorized hrigid,fun k x r i hk => ?_⟩
  refine hholds.claims k x (Effectuating.claim?_of_effect? (y := (x,r,i)) ?_)
  dsimp only [abstract]
  revert hk
  cases s.effectuating k <;> first | exact id | exact nofun

/-- The system on a file -/
def onFile (v : System) (store : SqliteClaims) : DurableSystem :=
  ⟨v.state,v.evidence,v.effectors,v.authorizing,v.effectuating,v.signed,store⟩

/-- The file that holds the claims of a system -/
def claimsFile (v : System) : SqliteClaims := ⟨⟨v.consumption.claims,none⟩,fun _ => .idle⟩

/-- A run up to its first claim -/
theorem reaches_onFile {v : System} (h : Machine.Reaches D.machine (fun s a => allowed s a ∧ ∀ k, a ≠ .claim k) v) :
    Machine.Reaches D.durable (DurableAction.Meets allowed) (onFile v (claimsFile v)) := by
  induction h with
  | init h => exact .init ⟨h,rfl,fun _ => rfl⟩
  | @step v v' a _ ha hs ih =>
    have hconsumption : v'.consumption = v.consumption := by
      cases hs with
      | claim => exact absurd rfl (ha.2 _)
      | _ => rfl
    have hfile : claimsFile v' = claimsFile v := by
      rw [claimsFile,hconsumption,claimsFile]
    rw [hfile]
    exact ih.step (a := .own (.own a)) ha.1 (.own (fun k hk => ha.2 k (VolatileAction.own.inj hk)) (.own hs))

variable {v : System} {k : Nat} {x : EffectuateArgs} {d : PyStr}

theorem reaches_statement {store store' : SqliteClaims}
    (h : Machine.Reaches D.durable (DurableAction.Meets allowed) (onFile v store))
    (hk : v.effectuating k = .verified x d) (hs : ClaimStep store k store')
    (hargs : (store'.calls k).args? = some (D.claimArgs x)) :
    Machine.Reaches D.durable (DurableAction.Meets allowed) (onFile v store') :=
  h.step (a := .statement k) trivial (.statement hk hs hargs)

theorem reaches_own {v' : System} {store : SqliteClaims} {a : VolatileAction}
    (h : Machine.Reaches D.durable (DurableAction.Meets allowed) (onFile v store)) (hnot : ∀ k, a ≠ .own (.claim k))
    (ha : a.Meets allowed (onFile v store).view) (hs : VolatileStep D (onFile v store).view a v') :
    Machine.Reaches D.durable (DurableAction.Meets allowed) (onFile v' store) :=
  h.step (a := .own a) ha (.own hnot hs)

theorem reaches_proceed {store : SqliteClaims}
    (h : Machine.Reaches D.durable (DurableAction.Meets allowed) (onFile v store))
    (hk : v.effectuating k = .verified x d) (hr : store.calls k = .returned (D.claimArgs x)) :
    Machine.Reaches D.durable (DurableAction.Meets allowed)
      (onFile { v with effectuating := update v.effectuating k (.claimed x d) } store) :=
  h.step (a := .proceed k) trivial (.proceed hk hr)

/-- A verified call that nobody disturbs claims on the file what it claims on the atomic store. -/
theorem reaches_claimed (h : Machine.Reaches D.durable (DurableAction.Meets allowed) (onFile v (claimsFile v)))
    (hk : v.effectuating k = .verified x d) (hnew : v.consumption.claims x.cap.capabilityId = none) :
    Machine.Reaches D.durable (DurableAction.Meets allowed)
      (onFile { v with effectuating := update v.effectuating k (.claimed x d) }
        ⟨⟨update v.consumption.claims x.cap.capabilityId (some (D.claimArgs x).row),none⟩,
          update (fun _ => .idle) k (.returned (D.claimArgs x))⟩) := by
  have args {f : Nat → ClaimCall} {p : ClaimCall} (hp : p.args? = some (D.claimArgs x)) :
      (update f k p k).args? = some (D.claimArgs x) := (congrArg _ (Function.update_self ..)).trans hp
  have h1 := reaches_statement h hk (ClaimStep.connect (k := k) (D.claimArgs x) rfl) (args rfl)
  have h2 := reaches_statement h1 hk (ClaimStep.beginImmediate (k := k) (Function.update_self ..)
    (SingleWriter.begin_eq_some.mpr ⟨rfl,rfl⟩)) (args rfl)
  have h3 := reaches_statement h2 hk (ClaimStep.insert (k := k) (Function.update_self ..)
    (SingleWriter.view_eq_some.mpr rfl) hnew) (args rfl)
  have h4 := reaches_statement h3 hk (ClaimStep.commit (k := k) (Function.update_self ..)
    SingleWriter.begun_commit) (args rfl)
  have h5 := reaches_statement h4 hk (ClaimStep.closeReturning (k := k) (Function.update_self ..)) (args rfl)
  have h6 := reaches_proceed h5 hk (Function.update_self ..)
  have hid : (D.claimArgs x).capabilityId = x.cap.capabilityId := rfl
  simpa only [claimsFile,Function.update_idem,SingleWriter.discard_of_none,hid] using h6

/-- A call of `effectuate` that takes effect is the first to claim on the file. -/
theorem reaches_afterCommit {record : EffectRecord}
    (h : Machine.Reaches D.machine (fun s a => allowed s a ∧ ∀ k, a ≠ .claim k) v) (hk : v.effectuating k = .idle)
    (hc : FinalitySink.Commits D.pf (D.sinks x.sink) v.evidence v.state v.consumption
      (v.effectors (D.boundTo x.sink)) x.candidate x.cap x.now x.presentationProof record)
    (hverify : allowed v (.verify k x)) (hcommit : ∀ s, allowed s (.commit k)) :
    Machine.Reaches D.durable (DurableAction.Meets allowed) (onFile (v.afterCommit D k x record)
      ⟨⟨update v.consumption.claims x.cap.capabilityId (some (D.claimArgs x).row),none⟩,
        update (fun _ => .idle) k (.returned (D.claimArgs x))⟩) := by
  have h1 := h.step ⟨hverify,nofun⟩ (Step.verify hk (FinalitySink.verify_eq_ok.mpr ⟨hc.verified,rfl⟩))
  have h2 := reaches_claimed (reaches_onFile h1) (Function.update_self ..) hc.unclaimed
  have hcommitted := GuardedEffector.commit_ok.mpr ⟨hc.marker,hc.working,hc.record,rfl⟩
  have h3 := reaches_own h2 (a := .own (.commit k)) nofun (hcommit _)
    (.own (Step.commit (k := k) (d := x.cap.descriptorDigest) (Function.update_self ..) hcommitted))
  simpa only [onFile,view,System.afterCommit,Function.update_idem] using h3

/-- The sample act takes effect with its row committed, and the process is restarted without its other stores. -/
theorem durable_effects_authorized_sample : ∃ (s : DurableSystem) (cap : Capability) (record : EffectRecord),
    (s.effectors 0).records = [record] ∧ (∀ i, s.evidence.records i = none) ∧
    (s.store.file.committed cap.capabilityId).isSome ∧
    ∃ f : {p : Nat × Nat // p.2 < (s.effectors p.1).records.length} → Nat, Function.Injective f ∧
      ∀ p, ∃ c e cap r, s.authorizing (f p) = .returned c e cap ∧
        (s.effectors p.1.1).records[p.1.2]? = some r ∧ c.digest samplePlatform = .ok r.candidateDigest := by
  obtain ⟨cap,state,store,record,hauth,hc⟩ := FinalitySink.sample_commits sampleAuthority.authenticator none
    (py "n") .none .none (Authenticator.signer_paired _ _).trusts (py_isText _) ⟨_,rfl⟩ rfl
  have h0 : Machine.Reaches sampleDeployment.machine (fun s a => (NotResigned a ∧
      CapabilityUnforged sampleDeployment s a) ∧ ∀ k, a ≠ .claim k) sampleSystem := .init sampleSystem_initial
  obtain ⟨e,h1⟩ := System.reaches_afterAuthorize h0 (k := 0) rfl hauth ⟨⟨trivial,trivial⟩,nofun⟩
    (fun _ => ⟨⟨trivial,trivial⟩,nofun⟩) (fun _ => ⟨⟨trivial,trivial⟩,nofun⟩)
  have hsigned : CapabilityUnforged sampleDeployment
      (sampleSystem.afterAuthorize sampleDeployment 0 (sampleAct (py "n") .none) e cap state store)
      (.verify 0 (sampleArgs cap)) := by
    obtain ⟨b,hb⟩ := (Authenticator.verify_eq_true hc.verified.signature).2
    exact fun _ => ⟨.capability cap,b,List.mem_cons_self ..,hb,hb⟩
  have h2 := reaches_afterCommit h1 (k := 0) (x := sampleArgs cap) rfl hc ⟨trivial,hsigned⟩ fun _ => ⟨trivial,trivial⟩
  have h3 := reaches_own h2 (a := .restart sampleState sampleEvidenceStore) nofun trivial
    (.restart (fun _ => rfl) (fun _ => rfl) fun _ => rfl)
  exact ⟨_,cap,record,by simp [onFile,view,System.afterCommit,sampleDeployment,System.afterAuthorize,sampleSystem,
    sampleEffector],fun _ => rfl,by simp [onFile,sampleArgs],
    (durable_effects_authorized (D := sampleDeployment) sampleNfc_hexRigid h3).1⟩

end DurableSystem
end ExecutionFinality
