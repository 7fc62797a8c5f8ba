import ExecutionFinality.Library.PointUpdates
import ExecutionFinality.Library.Runs
import ExecutionFinality.Library.SingleWriter
import ExecutionFinality.Reference.State

/-! `SQLiteConsumptionStore.claim` in any number of processes on one file, statement by
statement, against the atomic `InMemoryConsumptionStore.claim`. -/
namespace ExecutionFinality
open Function (update)

structure ClaimArgs where
  capabilityId : PyStr
  sinkId : PyStr
  boundaryId : PyStr
  nonce : PyStr
  nowNs : Int

def ClaimArgs.row (x : ClaimArgs) : PyStr × PyStr × PyStr × Int := (x.sinkId,x.boundaryId,x.nonce,x.nowNs)

/-- What a call raises: `ReplayDetected`, or an error of a statement that is not an `IntegrityError`. -/
inductive ClaimError where
  | replayDetected
  | other

/-- How far a call has come: after which statement it is, or how it ended. -/
inductive ClaimCall where
  | idle
  | connected (x : ClaimArgs)
  | begun (x : ClaimArgs)
  | inserted (x : ClaimArgs)
  | duplicate (x : ClaimArgs)
  | committed (x : ClaimArgs)
  | raising (x : ClaimArgs) (e : ClaimError)
  | returned (x : ClaimArgs)
  | raised (x : ClaimArgs) (e : ClaimError)
  | crashed (x : ClaimArgs)
  | crashedCommitted (x : ClaimArgs)

/-- The arguments of a call whose next statement may fail. -/
def ClaimCall.statement? : ClaimCall → Option ClaimArgs
  | .connected x | .begun x | .inserted x | .duplicate x => some x
  | _ => none

/-- The rows of the table under their primary key, and the calls on it. -/
structure SqliteClaims where
  file : SingleWriter Nat (PyStr → Option (PyStr × PyStr × PyStr × Int))
  calls : Nat → ClaimCall

def SqliteClaims.isClaimed (s : SqliteClaims) (capabilityId : PyStr) : Bool :=
  (s.file.committed capabilityId).isSome

/-- One statement of the call `k`. A statement that fails may have rolled the transaction back,
`close` does not raise, and with the death of its process a connection ends as by `close`. -/
inductive ClaimStep (s : SqliteClaims) : Nat → SqliteClaims → Prop
  | connect {k : Nat} (x : ClaimArgs) (hk : s.calls k = .idle) :
    ClaimStep s k { s with calls := update s.calls k (.connected x) }
  | failConnect {k : Nat} (x : ClaimArgs) (hk : s.calls k = .idle) :
    ClaimStep s k { s with calls := update s.calls k (.raised x .other) }
  | beginImmediate {k : Nat} {x : ClaimArgs} {file} (hk : s.calls k = .connected x)
      (hf : s.file.begin k = some file) : ClaimStep s k ⟨file,update s.calls k (.begun x)⟩
  | insert {k : Nat} {x : ClaimArgs} {rows} (hk : s.calls k = .begun x) (hv : s.file.view k = some rows)
      (hnew : rows x.capabilityId = none) :
    ClaimStep s k ⟨s.file.write k (update rows x.capabilityId (some x.row)),update s.calls k (.inserted x)⟩
  | integrityError {k : Nat} {x : ClaimArgs} {rows} (hk : s.calls k = .begun x) (hv : s.file.view k = some rows)
      (hdup : rows x.capabilityId ≠ none) :
    ClaimStep s k { s with calls := update s.calls k (.duplicate x) }
  | rollback {k : Nat} {x : ClaimArgs} (hk : s.calls k = .duplicate x) :
    ClaimStep s k ⟨s.file.discard k,update s.calls k (.raising x .replayDetected)⟩
  | commit {k : Nat} {x : ClaimArgs} {file} (hk : s.calls k = .inserted x) (hf : s.file.commit k = some file) :
    ClaimStep s k ⟨file,update s.calls k (.committed x)⟩
  | fail {k : Nat} {x : ClaimArgs} {file} (hk : (s.calls k).statement? = some x)
      (hf : file = s.file ∨ file = s.file.discard k) : ClaimStep s k ⟨file,update s.calls k (.raising x .other)⟩
  | closeRaising {k : Nat} {x : ClaimArgs} {e : ClaimError} (hk : s.calls k = .raising x e) :
    ClaimStep s k ⟨s.file.discard k,update s.calls k (.raised x e)⟩
  | closeReturning {k : Nat} {x : ClaimArgs} (hk : s.calls k = .committed x) :
    ClaimStep s k ⟨s.file.discard k,update s.calls k (.returned x)⟩
  | crash {k : Nat} {x : ClaimArgs} (hk : (s.calls k).statement? = some x ∨ ∃ e, s.calls k = .raising x e) :
    ClaimStep s k ⟨s.file.discard k,update s.calls k (.crashed x)⟩
  | crashCommitted {k : Nat} {x : ClaimArgs} (hk : s.calls k = .committed x) :
    ClaimStep s k ⟨s.file.discard k,update s.calls k (.crashedCommitted x)⟩

/-- The file as an earlier life left it, and no call begun. -/
def SqliteClaims.machine : Machine SqliteClaims Nat where
  Init s := s.file.writer = none ∧ ∀ k, s.calls k = .idle
  Step := ClaimStep

/-! The atomic store: a call is one claim, or it fails without a claim. -/

inductive ClaimOutcome where
  | claimed
  | replayDetected
  | failed

structure AtomicClaims where
  store : ConsumptionStore
  outcome : Nat → Option (ClaimArgs × ClaimOutcome)

def ConsumptionStore.claimArgs (store : ConsumptionStore) (x : ClaimArgs) : Except Exn ConsumptionStore :=
  store.claim x.capabilityId x.sinkId x.boundaryId x.nonce x.nowNs

inductive AtomicClaimStep (a : AtomicClaims) : Nat → AtomicClaims → Prop
  | claim {k : Nat} {x : ClaimArgs} {store : ConsumptionStore} (hk : a.outcome k = none)
      (hc : a.store.claimArgs x = .ok store) :
    AtomicClaimStep a k ⟨store,update a.outcome k (some (x,.claimed))⟩
  | replay {k : Nat} {x : ClaimArgs} {e : Exn} (hk : a.outcome k = none) (hc : a.store.claimArgs x = .error e) :
    AtomicClaimStep a k { a with outcome := update a.outcome k (some (x,.replayDetected)) }
  | fail {k : Nat} {x : ClaimArgs} (hk : a.outcome k = none) :
    AtomicClaimStep a k { a with outcome := update a.outcome k (some (x,.failed)) }

def AtomicClaims.machine : Machine AtomicClaims Nat where
  Init a := ∀ k, a.outcome k = none
  Step := AtomicClaimStep

/-- What holds of the file at each point of a call. -/
def ClaimCall.Holds (file : SingleWriter Nat (PyStr → Option (PyStr × PyStr × PyStr × Int))) (k : Nat) :
    ClaimCall → Prop
  | .begun _ => file.view k = some file.committed
  | .inserted x => file.committed x.capabilityId = none ∧
      file.view k = some (update file.committed x.capabilityId (some x.row))
  | .duplicate x | .raising x .replayDetected => file.committed x.capabilityId ≠ none
  | _ => True

namespace SqliteClaims
variable {s s' : SqliteClaims} {k : Nat}

def Consistent (s : SqliteClaims) : Prop := ∀ k, (s.calls k).Holds s.file k

theorem holds_frame {f f' : SingleWriter Nat (PyStr → Option (PyStr × PyStr × PyStr × Int))} {p : ClaimCall}
    (h : p.Holds f k) (hc : f'.committed = f.committed) (hv : f'.view k = f.view k) : p.Holds f' k := by
  unfold ClaimCall.Holds at h ⊢
  rw [hc,hv]
  exact h

/-- Who does not write is not disturbed by a commit. -/
theorem holds_grow {f f' : SingleWriter Nat (PyStr → Option (PyStr × PyStr × PyStr × Int))} {p : ClaimCall}
    (h : p.Holds f k) (hv : f.view k = none) (hgrow : ∀ i, f.committed i ≠ none → f'.committed i ≠ none) :
    p.Holds f' k := by
  unfold ClaimCall.Holds at h ⊢
  split at h
  · cases hv.symm.trans h
  · cases hv.symm.trans h.2
  · exact hgrow _ h
  · exact hgrow _ h
  · trivial

theorem Consistent.update (h : Consistent s) {file} {p : ClaimCall} (hk : p.Holds file k)
    (hothers : ∀ j, j ≠ k → (s.calls j).Holds s.file j → (s.calls j).Holds file j) :
    Consistent ⟨file,update s.calls k p⟩ := by
  intro j
  by_cases hj : j = k
  · subst hj
    simpa only [Function.update_self] using hk
  · simpa only [Function.update_of_ne hj] using hothers j hj (h j)

theorem Consistent.step (h : Consistent s) (hs : ClaimStep s k s') : Consistent s' := by
  have discarded {p : ClaimCall} (hp : p.Holds (s.file.discard k) k) :
      Consistent ⟨s.file.discard k,Function.update s.calls k p⟩ :=
    h.update hp fun j hj hold => holds_frame hold SingleWriter.discard_committed (SingleWriter.discard_view_of_ne hj)
  have same {p : ClaimCall} (hp : p.Holds s.file k) : Consistent { s with calls := Function.update s.calls k p } :=
    h.update hp fun _ _ hold => hold
  have hold := h k
  cases hs with
  | connect | failConnect => exact same trivial
  | beginImmediate hk hf =>
    obtain ⟨hnone,rfl⟩ := SingleWriter.begin_eq_some.mp hf
    refine h.update (SingleWriter.view_eq_some.mpr rfl) fun j hj hold => holds_frame hold rfl ?_
    rw [SingleWriter.view_of_ne (SingleWriter.view_eq_some.mpr rfl) hj,SingleWriter.view,hnone]
    rfl
  | insert hk hv hnew =>
    rw [hk] at hold
    cases hv.symm.trans hold
    exact h.update ⟨hnew,SingleWriter.write_view⟩ fun j hj hold =>
      holds_frame hold rfl (SingleWriter.write_view_of_ne hv hj)
  | integrityError hk hv hdup =>
    rw [hk] at hold
    cases hv.symm.trans hold
    exact same hdup
  | rollback hk =>
    rw [hk] at hold
    apply discarded
    simpa only [ClaimCall.Holds,SingleWriter.discard_committed] using hold
  | commit hk hf =>
    rw [hk] at hold
    obtain ⟨hnew,hview⟩ := hold
    obtain ⟨rows,hv,rfl⟩ := SingleWriter.commit_eq_some.mp hf
    cases hv.symm.trans hview
    refine h.update trivial fun j hj hold => holds_grow hold (SingleWriter.view_of_ne hv hj) fun i hi => ?_
    dsimp only
    rw [Function.update_of_ne]
    · exact hi
    · rintro rfl
      exact hi hnew
  | fail hk hf =>
    rcases hf with rfl | rfl
    · exact same trivial
    · exact discarded trivial
  | closeRaising | closeReturning | crash | crashCommitted => exact discarded trivial

theorem consistent_preserved : Machine.Preserved machine (fun _ _ => True) Consistent where
  init s h k := by
    rw [h.2 k]
    trivial
  step := fun _ _ _ _ hi _ hs => hi.step hs

end SqliteClaims

namespace AtomicClaims
variable {a a' : AtomicClaims} {j k : Nat}

/-- Who claimed holds the claim, nobody else claimed it, and a replay had something to replay. -/
structure Sound (a : AtomicClaims) : Prop where
  claimed : ∀ k x, a.outcome k = some (x,.claimed) → a.store.isClaimed x.capabilityId = true
  unique : ∀ j k x y, a.outcome j = some (x,.claimed) → a.outcome k = some (y,.claimed) →
    x.capabilityId = y.capabilityId → j = k
  replayed : ∀ k x, a.outcome k = some (x,.replayDetected) → a.store.isClaimed x.capabilityId = true

theorem isClaimed_of_claim {store store' : ConsumptionStore} {x : ClaimArgs} (h : store.claimArgs x = .ok store') :
    store.isClaimed x.capabilityId = false ∧
      ∀ i, store'.isClaimed i = true ↔ i = x.capabilityId ∨ store.isClaimed i = true := by
  obtain ⟨hnew,rfl⟩ := ConsumptionStore.claim_eq_ok.mp h
  refine ⟨by rw [ConsumptionStore.isClaimed,hnew]; rfl,fun i => ?_⟩
  by_cases hi : i = x.capabilityId
  · simp [ConsumptionStore.isClaimed,hi]
  · simp [ConsumptionStore.isClaimed,hi]

theorem isClaimed_of_error {store : ConsumptionStore} {x : ClaimArgs} {e : Exn} (h : store.claimArgs x = .error e) :
    store.isClaimed x.capabilityId = true := by
  unfold ConsumptionStore.claimArgs ConsumptionStore.claim at h
  split at h
  · assumption
  · cases h

theorem Sound.step (h : Sound a) (hs : AtomicClaimStep a k a') : Sound a' := by
  -- A call that does not claim leaves the claims and their owners.
  have other {x : ClaimArgs} {o : ClaimOutcome} (ho : o ≠ .claimed)
      (hreplay : o = .replayDetected → a.store.isClaimed x.capabilityId = true) :
      Sound { a with outcome := update a.outcome k (some (x,o)) } := by
    have old (i : Nat) (y : ClaimArgs) (hi : update a.outcome k (some (x,o)) i = some (y,.claimed)) :
        a.outcome i = some (y,.claimed) := by
      rcases update_cases hi with ⟨_,hv⟩ | ⟨_,hi⟩
      · cases hv
        exact absurd rfl ho
      · exact hi
    refine ⟨fun i y hi => h.claimed i y (old i y hi),
      fun i i' y y' hi hi' => h.unique i i' y y' (old i y hi) (old i' y' hi'),fun i y hi => ?_⟩
    rcases update_cases hi with ⟨_,hv⟩ | ⟨_,hi⟩
    · cases hv
      exact hreplay rfl
    · exact h.replayed i y hi
  cases hs with
  | fail => exact other nofun nofun
  | replay hk hc => exact other nofun fun _ => isClaimed_of_error hc
  | @claim x store hk hc =>
    obtain ⟨hnew,hclaimed⟩ := isClaimed_of_claim hc
    have owner (i : Nat) (y : ClaimArgs) (hi : update a.outcome k (some (x,.claimed)) i = some (y,.claimed)) :
        i = k ∧ y = x ∨ a.outcome i = some (y,.claimed) := by
      rcases update_cases hi with ⟨rfl,hv⟩ | ⟨_,hi⟩
      · cases hv
        exact .inl ⟨rfl,rfl⟩
      · exact .inr hi
    constructor
    · intro i y hi
      rcases owner i y hi with ⟨rfl,rfl⟩ | hi
      · exact (hclaimed _).mpr (.inl rfl)
      · exact (hclaimed _).mpr (.inr (h.claimed i y hi))
    · intro i i' y y' hi hi' hid
      rcases owner i y hi with ⟨rfl,rfl⟩ | hold <;> rcases owner i' y' hi' with ⟨rfl,rfl⟩ | hold'
      · rfl
      · exact absurd (hid ▸ h.claimed i' y' hold') (by rw [hnew]; decide)
      · exact absurd (hid ▸ h.claimed i y hold) (by rw [hnew]; decide)
      · exact h.unique i i' y y' hold hold' hid
    · intro i y hi
      rcases update_cases hi with ⟨_,hv⟩ | ⟨_,hi⟩
      · cases hv
      · exact (hclaimed _).mpr (.inr (h.replayed i y hi))

theorem sound_preserved : Machine.Preserved machine (fun _ _ => True) Sound where
  init a h := by
    constructor <;> intros <;> simp_all [h _]
  step := fun _ _ _ _ hi _ hs => hi.step hs

end AtomicClaims

/-- What a call has done, once it is decided. -/
def ClaimCall.outcome? : ClaimCall → Option (ClaimArgs × ClaimOutcome)
  | .committed x | .returned x | .crashedCommitted x => some (x,.claimed)
  | .raised x .replayDetected => some (x,.replayDetected)
  | .raised x .other | .crashed x => some (x,.failed)
  | _ => none

namespace SqliteClaims
variable {s s' : SqliteClaims} {k : Nat}

def atomic (s : SqliteClaims) : AtomicClaims := ⟨⟨s.file.committed⟩,fun k => (s.calls k).outcome?⟩

theorem atomic_update {file} {p : ClaimCall} : atomic ⟨file,update s.calls k p⟩ =
    ⟨⟨file.committed⟩,update s.atomic.outcome k p.outcome?⟩ := by
  simp only [atomic,AtomicClaims.mk.injEq,true_and]
  exact Function.comp_update ClaimCall.outcome? s.calls k p

theorem atomic_update_same {file} {p : ClaimCall} (hc : file.committed = s.file.committed)
    (hp : p.outcome? = (s.calls k).outcome?) : atomic ⟨file,update s.calls k p⟩ = s.atomic := by
  rw [atomic_update,hc,hp]
  exact congrArg _ (Function.update_eq_self k s.atomic.outcome)

theorem statement_undecided {p : ClaimCall} {x : ClaimArgs} (h : p.statement? = some x) : p.outcome? = none := by
  cases p <;> first | rfl | cases h

/-- The calls on the file are calls on the atomic store: a COMMIT is the claim, the end of a
call that raised or died without one is its failure. -/
theorem refines : Machine.Refines machine (fun _ _ => True) AtomicClaims.machine atomic where
  init s h := by
    intro k
    exact congrArg ClaimCall.outcome? (h.2 k)
  step := by
    intro s k s' hreach _ hs
    have hold := hreach.invariant consistent_preserved k
    have decided {file} {p : ClaimCall} {x : ClaimArgs} {o : ClaimOutcome} (hp : p.outcome? = some (x,o))
        (hstep : AtomicClaimStep s.atomic k ⟨⟨file.committed⟩,update s.atomic.outcome k (some (x,o))⟩) :
        ∃ b, AtomicClaimStep s.atomic b (atomic ⟨file,update s.calls k p⟩) := by
      refine ⟨k,?_⟩
      rw [atomic_update,hp]
      exact hstep
    have undecided (h : (s.calls k).outcome? = none) : s.atomic.outcome k = none := h
    cases hs with
    | connect x hk => exact .inl (atomic_update_same rfl (by rw [hk]; rfl))
    | failConnect x hk => exact .inr (decided rfl (.fail (undecided (by rw [hk]; rfl))))
    | beginImmediate hk hf =>
      obtain ⟨_,rfl⟩ := SingleWriter.begin_eq_some.mp hf
      exact .inl (atomic_update_same rfl (by rw [hk]; rfl))
    | insert hk => exact .inl (atomic_update_same rfl (by rw [hk]; rfl))
    | integrityError hk => exact .inl (atomic_update_same rfl (by rw [hk]; rfl))
    | rollback hk => exact .inl (atomic_update_same SingleWriter.discard_committed (by rw [hk]; rfl))
    | commit hk hf =>
      rw [hk] at hold
      obtain ⟨hnew,hview⟩ := hold
      obtain ⟨rows,hv,rfl⟩ := SingleWriter.commit_eq_some.mp hf
      cases hv.symm.trans hview
      exact .inr (decided rfl (.claim (undecided (by rw [hk]; rfl)) (ConsumptionStore.claim_eq_ok.mpr ⟨hnew,rfl⟩)))
    | fail hk hf =>
      refine .inl (atomic_update_same ?_ (statement_undecided hk).symm)
      rcases hf with rfl | rfl
      · rfl
      · exact SingleWriter.discard_committed
    | @closeRaising x e hk =>
      rw [hk] at hold
      apply Or.inr
      cases e with
      | other =>
        apply decided rfl
        rw [SingleWriter.discard_committed]
        exact .fail (undecided (by rw [hk]; rfl))
      | replayDetected =>
        apply decided rfl
        rw [SingleWriter.discard_committed]
        exact .replay (undecided (by rw [hk]; rfl)) (if_pos (Option.isSome_iff_ne_none.mpr hold))
    | closeReturning hk => exact .inl (atomic_update_same SingleWriter.discard_committed (by rw [hk]; rfl))
    | crash hk =>
      refine .inr (decided rfl ?_)
      rw [SingleWriter.discard_committed]
      refine .fail (undecided ?_)
      rcases hk with hk | ⟨e,hk⟩
      · exact statement_undecided hk
      · rw [hk]
        rfl
    | crashCommitted hk => exact .inl (atomic_update_same SingleWriter.discard_committed (by rw [hk]; rfl))

/-- A step of a call leaves the other calls. -/
theorem calls_of_ne {j : Nat} (hs : ClaimStep s k s') (hj : j ≠ k) : s'.calls j = s.calls j := by
  cases hs <;> exact Function.update_of_ne hj ..

/-- What a call has done stays done. -/
theorem outcome_kept {j : Nat} {o : ClaimArgs × ClaimOutcome} (hs : ClaimStep s k s')
    (h : (s.calls j).outcome? = some o) : (s'.calls j).outcome? = some o := by
  by_cases hj : j = k
  · subst hj
    have undecided (hn : (s.calls j).outcome? = none) : (s'.calls j).outcome? = some o := by
      rw [hn] at h
      cases h
    cases hs with
    | connect x hk | failConnect x hk => exact undecided (by rw [hk]; rfl)
    | beginImmediate hk | insert hk | integrityError hk | rollback hk | commit hk | closeRaising hk =>
      exact undecided (by rw [hk]; rfl)
    | fail hk => exact undecided (statement_undecided hk)
    | crash hk =>
      rcases hk with hk | ⟨e,hk⟩
      · exact undecided (statement_undecided hk)
      · exact undecided (by rw [hk]; rfl)
    | closeReturning hk | crashCommitted hk =>
      rw [hk] at h
      dsimp only
      rw [Function.update_self]
      exact h
  · rwa [calls_of_ne hs hj]

theorem outcome_kept_run {j : Nat} {o : ClaimArgs × ClaimOutcome}
    (h : Machine.Reaches (machine.startingAt s) (fun _ _ => True) s') (ho : (s.calls j).outcome? = some o) :
    (s'.calls j).outcome? = some o := by
  induction h with
  | init h => exact h ▸ ho
  | step _ _ hs ih => exact outcome_kept hs ih

theorem raising_of_raised {x : ClaimArgs} (hs : ClaimStep s k s') (h : s'.calls k = .raised x .replayDetected) :
    s.calls k = .raising x .replayDetected := by
  cases hs with
  | closeRaising hk =>
    cases (Function.update_self ..).symm.trans h
    exact hk
  | _ => cases (Function.update_self ..).symm.trans h

/-- The table changes in a COMMIT only. -/
theorem committed_of_step (hs : ClaimStep s k s') :
    s'.file.committed = s.file.committed ∨ ∃ x, s'.calls k = .committed x := by
  cases hs with
  | connect | failConnect | insert | integrityError => exact .inl rfl
  | beginImmediate hk hf =>
    obtain ⟨_,rfl⟩ := SingleWriter.begin_eq_some.mp hf
    exact .inl rfl
  | commit => exact .inr ⟨_,Function.update_self ..⟩
  | fail hk hf =>
    rcases hf with rfl | rfl
    · exact .inl rfl
    · exact .inl SingleWriter.discard_committed
  | rollback | closeRaising | closeReturning | crash | crashCommitted => exact .inl SingleWriter.discard_committed

/-- A call that nobody disturbs claims a new id. -/
theorem reaches_returned {x : ClaimArgs} (h : Machine.Reaches machine (fun _ _ => True) s) (hk : s.calls k = .idle)
    (hw : s.file.writer = none) (hnew : s.file.committed x.capabilityId = none) :
    Machine.Reaches machine (fun _ _ => True)
      ⟨⟨update s.file.committed x.capabilityId (some x.row),none⟩,update s.calls k (.returned x)⟩ := by
  have h1 := h.step trivial (ClaimStep.connect x hk)
  have h2 := h1.step trivial (ClaimStep.beginImmediate (k := k) (Function.update_self ..)
    (SingleWriter.begin_eq_some.mpr ⟨hw,rfl⟩))
  have h3 := h2.step trivial (ClaimStep.insert (k := k) (Function.update_self ..) (SingleWriter.view_eq_some.mpr rfl)
    hnew)
  have h4 := h3.step trivial (ClaimStep.commit (k := k) (Function.update_self ..) SingleWriter.begun_commit)
  have h5 := h4.step trivial (ClaimStep.closeReturning (k := k) (Function.update_self ..))
  simpa only [Function.update_idem,SingleWriter.discard_of_none] using h5

/-- A call that nobody disturbs reports the replay of a claimed id. -/
theorem reaches_raised {x : ClaimArgs} (h : Machine.Reaches machine (fun _ _ => True) s) (hk : s.calls k = .idle)
    (hw : s.file.writer = none) (hdup : s.file.committed x.capabilityId ≠ none) :
    Machine.Reaches machine (fun _ _ => True) ⟨s.file,update s.calls k (.raised x .replayDetected)⟩ := by
  have h1 := h.step trivial (ClaimStep.connect x hk)
  have h2 := h1.step trivial (ClaimStep.beginImmediate (k := k) (Function.update_self ..)
    (SingleWriter.begin_eq_some.mpr ⟨hw,rfl⟩))
  have h3 := h2.step trivial (ClaimStep.integrityError (k := k) (Function.update_self ..)
    (SingleWriter.view_eq_some.mpr rfl) hdup)
  have h4 := h3.step trivial (ClaimStep.rollback (k := k) (Function.update_self ..))
  have h5 := h4.step trivial (ClaimStep.closeRaising (k := k) (Function.update_self ..))
  have hfile : (⟨s.file.committed,none⟩ : SingleWriter Nat _) = s.file := by
    rw [← hw]
  simpa only [Function.update_idem,SingleWriter.begun_discard,SingleWriter.discard_of_none,hfile,hw] using h5

/-- For each id at most one call returns; from then on the id is claimed and no other call for it
returns; a replay is reported on a committed row; a call that raises does not change the table. -/
theorem claim_single_use (h : Machine.Reaches machine (fun _ _ => True) s) :
    (∀ j k x y, s.calls j = .returned x → s.calls k = .returned y → x.capabilityId = y.capabilityId → j = k) ∧
    (∀ k x s', s.calls k = .returned x → Machine.Reaches (machine.startingAt s) (fun _ _ => True) s' →
      s'.isClaimed x.capabilityId = true ∧
        ∀ j y, j ≠ k → y.capabilityId = x.capabilityId → s'.calls j ≠ .returned y) ∧
    (∀ k j x s', ClaimStep s k s' → s'.calls j = .raised x .replayDetected → s.isClaimed x.capabilityId = true) ∧
    (∀ k x e s' s'', ClaimStep s k s' → Machine.Reaches (machine.startingAt s') (fun _ _ => True) s'' →
      s''.calls k = .raised x e → s'.file.committed = s.file.committed) ∧
    Machine.Reaches AtomicClaims.machine (fun _ _ => True) s.atomic := by
  have sound {s : SqliteClaims} (h : Machine.Reaches machine (fun _ _ => True) s) : s.atomic.Sound :=
    (h.refine refines).invariant AtomicClaims.sound_preserved
  have claimed {s : SqliteClaims} {k : Nat} {x : ClaimArgs} (hk : s.calls k = .returned x) :
      s.atomic.outcome k = some (x,.claimed) := congrArg ClaimCall.outcome? hk
  refine ⟨fun j k x y hj hk => (sound h).unique j k x y (claimed hj) (claimed hk),?_,?_,?_,h.refine refines⟩
  · intro k x s' hk h'
    have hlater := sound (h.append h')
    have hkept := outcome_kept_run h' (claimed hk)
    refine ⟨hlater.claimed k x hkept,fun j y hj hid hreturned => ?_⟩
    exact hj (hlater.unique j k y x (claimed hreturned) hkept hid)
  · intro k j x s' hs hraised
    by_cases hj : j = k
    · subst hj
      have hold := h.invariant consistent_preserved j
      rw [raising_of_raised hs hraised] at hold
      exact Option.isSome_iff_ne_none.mpr hold
    · rw [calls_of_ne hs hj] at hraised
      exact (sound h).replayed j x (congrArg ClaimCall.outcome? hraised)
  · intro k x e s' s'' hs h' hraised
    rcases committed_of_step hs with hsame | ⟨y,hy⟩
    · exact hsame
    · have hkept := outcome_kept_run h' (j := k) (congrArg ClaimCall.outcome? hy)
      rw [hraised] at hkept
      cases e <;> cases hkept

/-- Two calls for one id on an empty table: the first returns, and no other ever will. -/
theorem claim_single_use_sample : ∃ (s : SqliteClaims) (x : ClaimArgs),
    Machine.Reaches machine (fun _ _ => True) s ∧ s.calls 0 = .returned x ∧ s.calls 1 = .raised x .replayDetected ∧ s.isClaimed x.capabilityId = true ∧
    ∀ j y, j ≠ 0 → y.capabilityId = x.capabilityId → s.calls j ≠ .returned y := by
  let x : ClaimArgs := ⟨py "capability",py "sink",py "boundary",py "n",300⟩
  have h₀ : Machine.Reaches machine (fun _ _ => True) ⟨⟨fun _ => none,none⟩,fun _ => .idle⟩ := .init ⟨rfl,fun _ => rfl⟩
  have h₁ := reaches_returned (k := 0) (x := x) h₀ rfl rfl rfl
  have h₂ := reaches_raised (k := 1) (x := x) h₁ rfl rfl (by simp)
  obtain ⟨_,hlater,_⟩ := claim_single_use h₂
  exact ⟨_,x,h₂,rfl,rfl,hlater 0 x _ rfl (.init rfl)⟩

end SqliteClaims
end ExecutionFinality
