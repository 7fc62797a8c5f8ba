import ExecutionFinality.Library.Meters
import ExecutionFinality.Library.Runs
import ExecutionFinality.Reference.Issuance
import Mathlib.Algebra.Order.Group.Int

/-! Runs of the protected state alone: the counters of a source are a meter that is charged
by the calls that succeed for it. -/
namespace ExecutionFinality
open Function (update)

def SourceState.meter (s : SourceState) : Meter Int := ⟨s.version,s.quota,s.budget⟩

theorem SourceState.eq_of_meter {s : SourceState} {v q b : Int} (h : s.meter = ⟨v,q,b⟩) : s = ⟨v,q,b⟩ := by
  cases h
  rfl

/-- A successful call of `transition_for_authorization` with the snapshots of its source
just before and just after it. -/
structure Reservation where
  candidate : CandidateAct
  cost : Int
  transition : StateTransition
  before : SourceState
  after : SourceState

/-- The state and the successful calls so far, the oldest first. -/
structure ProtectedRun where
  state : ProtectedState
  log : List Reservation

inductive ProtectedCall where
  | transitionForAuthorization (candidate : CandidateAct) (cost : Int)
  | snapshot (source : PyStr)
  | configureSource (source : PyStr) (quota budget : Int)

inductive ProtectedStep (pf : Platform) (s : ProtectedRun) : ProtectedCall → ProtectedRun → Prop
  | reserve {c : CandidateAct} {cost : Int} {t : StateTransition} {state : ProtectedState}
      (h : s.state.transitionForAuthorization pf c cost = (.ok t,state)) :
    ProtectedStep pf s (.transitionForAuthorization c cost)
      ⟨state,s.log ++ [⟨c,cost,t,(s.state.snapshot c.source).1,(state.snapshot c.source).1⟩]⟩
  | refuse {c : CandidateAct} {cost : Int} {e : Exn} {state : ProtectedState}
      (h : s.state.transitionForAuthorization pf c cost = (.error e,state)) :
    ProtectedStep pf s (.transitionForAuthorization c cost) ⟨state,s.log⟩
  | snapshot (source : PyStr) : ProtectedStep pf s (.snapshot source) ⟨(s.state.snapshot source).2,s.log⟩
  | configureSource (source : PyStr) (quota budget : Int) :
    ProtectedStep pf s (.configureSource source quota budget) ⟨s.state.configureSource source quota budget,s.log⟩

namespace ProtectedState
variable {pf : Platform} {s s' : ProtectedState} {c : CandidateAct} {cost : Int} {t : StateTransition}

@[simp] theorem snapshot_snapshot (a b : PyStr) : ((s.snapshot a).2.snapshot b).1 = (s.snapshot b).1 := by
  unfold snapshot getSource
  cases ha : s.sources a with
  | some _ => rfl
  | none =>
    by_cases hb : b = a
    · subst hb
      simp [ha]
    · simp only [Function.update_of_ne hb]
      cases s.sources b <;> rfl

theorem snapshot_record_of_ne {b : PyStr} (h : b ≠ t.source) : ((s.record t).snapshot b).1 = (s.snapshot b).1 := by
  simp only [snapshot,getSource,record,Function.update_of_ne h]
  split <;> rfl

theorem snapshot_configureSource_of_ne {a b : PyStr} {quota budget : Int} (h : b ≠ a) :
    ((s.configureSource a quota budget).snapshot b).1 = (s.snapshot b).1 := by
  simp only [snapshot,getSource,configureSource,Function.update_of_ne h]
  split <;> rfl

/-- A call that succeeds charges the meter of its source. -/
theorem charge_of_ok (h : s.transitionForAuthorization pf c cost = (.ok t,s')) :
    (s.snapshot c.source).1.meter.charge cost = some (s'.snapshot c.source).1.meter := by
  obtain ⟨hcost,_,hquota,hbudget,hnext,rfl⟩ := transitionForAuthorization_eq_ok.mp h
  obtain ⟨hv,hq,hb⟩ := nextTransition_after hnext
  have hrecord := getSource_record (s.getSource c.source).2 t
  rw [(nextTransition_reserves hcost hnext).source,hv,hq,hb] at hrecord
  rw [Meter.charge_eq_some]
  exact ⟨hcost,hquota,hbudget,by simp only [snapshot,hrecord,SourceState.meter]⟩

theorem snapshot_of_ok (h : s.transitionForAuthorization pf c cost = (.ok t,s')) {b : PyStr} (hb : b ≠ c.source) :
    (s'.snapshot b).1 = (s.snapshot b).1 := by
  obtain ⟨hcost,_,_,_,hnext,rfl⟩ := transitionForAuthorization_eq_ok.mp h
  rw [snapshot_record_of_ne (by rwa [(nextTransition_reserves hcost hnext).source])]
  exact snapshot_snapshot c.source b

/-- The transition of a call spells out the snapshots around it. -/
theorem transition_of_ok (h : s.transitionForAuthorization pf c cost = (.ok t,s')) :
    (s.snapshot c.source).1 = ⟨t.beforeVersion,t.quotaBefore,t.budgetBefore⟩ ∧
      (s'.snapshot c.source).1 = ⟨t.afterVersion,t.quotaAfter,t.budgetAfter⟩ := by
  obtain ⟨hcost,_,_,_,hnext,rfl⟩ := transitionForAuthorization_eq_ok.mp h
  obtain ⟨hv,hq,hb⟩ := nextTransition_before hnext
  have hrecord := getSource_record (s.getSource c.source).2 t
  rw [(nextTransition_reserves hcost hnext).source] at hrecord
  refine ⟨?_,congrArg Prod.fst hrecord⟩
  rw [hv,hq,hb]
  rfl

/-- A call that raises changes no snapshot, no nonce and no transition. -/
theorem unchanged_of_error {e : Exn} (h : s.transitionForAuthorization pf c cost = (.error e,s')) :
    (∀ b, (s'.snapshot b).1 = (s.snapshot b).1) ∧ s'.nonces = s.nonces ∧ s'.transitions = s.transitions := by
  refine ⟨fun b => ?_,transitionForAuthorization_error h⟩
  have entered : ((s.getSource c.source).2.snapshot b).1 = (s.snapshot b).1 := snapshot_snapshot c.source b
  unfold transitionForAuthorization at h
  dsimp only at h
  split at h
  · cases h; rfl
  split at h
  · cases h; rfl
  split at h
  · cases h; exact entered
  split at h
  · cases h; exact entered
  split at h
  · cases h; exact entered
  · cases h

end ProtectedState

namespace ProtectedRun
variable {pf : Platform} {source : PyStr} {start : SourceState} {s s' : ProtectedRun} {a : ProtectedCall}

/-- Runs of a fresh state. -/
def machine (pf : Platform) : Machine ProtectedRun ProtectedCall where
  Init s := (∀ a, s.state.sources a = none) ∧ (∀ n, s.state.nonces n = none) ∧
    (∀ t, s.state.transitions t = none) ∧ s.log = []
  Step := ProtectedStep pf

/-- The successful calls for a source -/
def calls (s : ProtectedRun) (source : PyStr) : List Reservation := s.log.filter fun x => x.candidate.source = source

/-- The costs of the successful calls for a source -/
def costs (s : ProtectedRun) (source : PyStr) : List Int := (s.calls source).map (·.cost)

/-- The call does not configure the source. -/
def LeavesSource (source : PyStr) (_ : ProtectedRun) : ProtectedCall → Prop
  | .configureSource a _ _ => a ≠ source
  | _ => True

/-- The snapshots of a source are its start charged with the costs of its calls. -/
structure Metered (source : PyStr) (start : SourceState) (s : ProtectedRun) : Prop where
  now : start.meter.charges (s.costs source) = some (s.state.snapshot source).1.meter
  before : ∀ k x, (s.calls source)[k]? = some x → start.meter.charges ((s.costs source).take k) = some x.before.meter
  after : ∀ k x, (s.calls source)[k]? = some x → start.meter.charges ((s.costs source).take (k + 1)) = some x.after.meter

theorem Metered.of_eq (h : Metered source start s) (hlog : s'.log = s.log)
    (hs : (s'.state.snapshot source).1 = (s.state.snapshot source).1) : Metered source start s' := by
  obtain ⟨state,log⟩ := s'
  cases hlog
  exact ⟨h.now.trans (congrArg (fun st => some st.meter) hs.symm),h.before,h.after⟩

private theorem calls_concat {x : Reservation} (hx : x.candidate.source = source) {state : ProtectedState} :
    calls ⟨state,s.log ++ [x]⟩ source = s.calls source ++ [x] := by
  simp [calls,hx]

private theorem calls_concat_of_ne {x : Reservation} (hx : x.candidate.source ≠ source) {state : ProtectedState} :
    calls ⟨state,s.log ++ [x]⟩ source = s.calls source := by
  simp [calls,hx]

/-- The call of the source that comes after all others charges the meter once more. -/
private theorem Metered.concat (h : Metered source start s) {x : Reservation} {state : ProtectedState}
    (hx : x.candidate.source = source) (hb : x.before = (s.state.snapshot source).1)
    (ha : x.after = (state.snapshot source).1) (hc : x.before.meter.charge x.cost = some x.after.meter) :
    Metered source start ⟨state,s.log ++ [x]⟩ := by
  have hcosts : costs ⟨state,s.log ++ [x]⟩ source = s.costs source ++ [x.cost] := by
    rw [costs,calls_concat hx,List.map_append]
    rfl
  have hnow : start.meter.charges (s.costs source ++ [x.cost]) = some x.after.meter := by
    rw [Meter.charges_concat,h.now,← hb]
    exact hc
  have hlength : (s.costs source).length = (s.calls source).length := List.length_map ..
  -- An earlier call keeps the costs before it; the new one has all of them before it.
  have call (k : Nat) (y : Reservation) (hy : (s.calls source ++ [x])[k]? = some y) :
      (k < (s.costs source).length ∧ (s.calls source)[k]? = some y) ∨ (k = (s.costs source).length ∧ y = x) := by
    rcases lt_trichotomy k (s.calls source).length with hk | hk | hk
    · rw [List.getElem?_append_left hk] at hy
      exact .inl ⟨hlength ▸ hk,hy⟩
    · subst hk
      simp only [List.getElem?_concat_length,Option.some.injEq] at hy
      exact .inr ⟨hlength.symm,hy.symm⟩
    · rw [List.getElem?_eq_none (by simp; omega)] at hy
      cases hy
  constructor
  · rw [hcosts,hnow,ha]
  · intro k y hy
    rw [calls_concat hx] at hy
    rw [hcosts]
    rcases call k y hy with ⟨hk,hy⟩ | ⟨rfl,rfl⟩
    · rw [List.take_append_of_le_length hk.le]
      exact h.before k y hy
    · rw [List.take_left',h.now,hb]
      rfl
  · intro k y hy
    rw [calls_concat hx] at hy
    rw [hcosts]
    rcases call k y hy with ⟨hk,hy⟩ | ⟨rfl,rfl⟩
    · rw [List.take_append_of_le_length hk]
      exact h.after k y hy
    · rw [List.take_of_length_le (by simp)]
      exact hnow

theorem Metered.step (h : Metered source start s) (ha : LeavesSource source s a) (hs : ProtectedStep pf s a s') :
    Metered source start s' := by
  cases hs with
  | refuse hr => exact h.of_eq rfl ((ProtectedState.unchanged_of_error hr).1 source)
  | snapshot b => exact h.of_eq rfl (ProtectedState.snapshot_snapshot b source)
  | configureSource b => exact h.of_eq rfl (ProtectedState.snapshot_configureSource_of_ne ha.symm)
  | @reserve c cost t state hr =>
    by_cases hc : c.source = source
    · subst hc
      exact h.concat rfl rfl rfl (ProtectedState.charge_of_ok hr)
    · have hcalls : calls ⟨state,s.log ++ [⟨c,cost,t,(s.state.snapshot c.source).1,(state.snapshot c.source).1⟩]⟩
          source = s.calls source := calls_concat_of_ne hc
      constructor
      · rw [costs,hcalls,ProtectedState.snapshot_of_ok hr (Ne.symm hc)]
        exact h.now
      · rw [costs,hcalls]
        exact h.before
      · rw [costs,hcalls]
        exact h.after

/-- Every call of the log was made for its candidate, between the snapshots it notes. -/
def LogRecorded (pf : Platform) (s : ProtectedRun) : Prop :=
  ∀ x ∈ s.log, ProtectedState.Reserves pf x.candidate x.transition ∧
    x.before = ⟨x.transition.beforeVersion,x.transition.quotaBefore,x.transition.budgetBefore⟩ ∧
    x.after = ⟨x.transition.afterVersion,x.transition.quotaAfter,x.transition.budgetAfter⟩

theorem LogRecorded.step (h : LogRecorded pf s) (hs : ProtectedStep pf s a s') : LogRecorded pf s' := by
  cases hs with
  | reserve hr =>
    intro x hx
    rcases List.mem_append.mp hx with hx | hx
    · exact h x hx
    · cases List.mem_singleton.mp hx
      exact ⟨(ProtectedState.transitionForAuthorization_ok hr).2.1,ProtectedState.transition_of_ok hr⟩
  | _ => exact h

/-- The nonces of the log are entered, and no two of its calls share one. -/
structure NoncesSpent (s : ProtectedRun) : Prop where
  entered : ∀ x ∈ s.log, s.state.nonces x.candidate.nonce ≠ none
  distinct : (s.log.map (·.candidate.nonce)).Nodup

theorem NoncesSpent.step (h : NoncesSpent s) (hs : ProtectedStep pf s a s') : NoncesSpent s' := by
  cases hs with
  | refuse hr => exact ⟨by rw [(ProtectedState.transitionForAuthorization_error hr).1]; exact h.entered,h.distinct⟩
  | snapshot b => exact ⟨by rw [ProtectedState.snapshot,ProtectedState.getSource_nonces]; exact h.entered,h.distinct⟩
  | configureSource => exact ⟨h.entered,h.distinct⟩
  | reserve hr =>
    obtain ⟨hnew,_,hnonces,_⟩ := ProtectedState.transitionForAuthorization_ok hr
    constructor
    · intro x hx
      rw [hnonces]
      rcases List.mem_append.mp hx with hx | hx
      · rw [Function.update_of_ne]
        · exact h.entered x hx
        · intro he
          exact h.entered x hx (he ▸ hnew)
      · cases List.mem_singleton.mp hx
        simp
    · rw [List.map_append,List.nodup_append]
      refine ⟨h.distinct,List.nodup_singleton _,fun n hn m hm he => ?_⟩
      obtain ⟨x,hx,rfl⟩ := List.mem_map.mp hn
      cases List.mem_singleton.mp hm
      exact h.entered x hx (he ▸ hnew)

/-- The counters after some of the charges of a meter that starts at version 0. -/
theorem eq_of_charges {q b : Int} {st : SourceState} {costs : List Int}
    (h : (⟨0,q,b⟩ : SourceState).meter.charges costs = some st.meter) :
    st = ⟨costs.length,q - costs.length,b - costs.sum⟩ :=
  SourceState.eq_of_meter ((Meter.charges_eq_some h).trans (by simp [SourceState.meter]))

/-- The counters of a source that is not configured again are its start less what its
successful calls took, which the transitions of the calls record without gap or repetition. -/
theorem counters_conserved {s₀ : ProtectedState} {q b : Int} (h₀ : (s₀.snapshot source).1 = ⟨0,q,b⟩) (hq : 0 ≤ q)
    (hb : 0 ≤ b) (h : Machine.Reaches ((machine pf).startingAt ⟨s₀,[]⟩) (LeavesSource source) s) :
    ((s.state.snapshot source).1 =
        ⟨(s.calls source).length,q - (s.calls source).length,b - (s.costs source).sum⟩ ∧
      0 ≤ q - (s.calls source).length ∧ 0 ≤ b - (s.costs source).sum) ∧
    (∀ (k : Nat) x, (s.calls source)[k]? = some x →
      (x.before = ⟨x.transition.beforeVersion,x.transition.quotaBefore,x.transition.budgetBefore⟩ ∧
        x.after = ⟨x.transition.afterVersion,x.transition.quotaAfter,x.transition.budgetAfter⟩) ∧
      x.before = ⟨k,q - k,b - ((s.costs source).take k).sum⟩ ∧
      x.after = ⟨k + 1,q - (k + 1),b - ((s.costs source).take (k + 1)).sum⟩) ∧
    (s.log.map (·.candidate.nonce)).Nodup ∧
    ∀ c cost e state, s.state.transitionForAuthorization pf c cost = (.error e,state) →
      (∀ a, (state.snapshot a).1 = (s.state.snapshot a).1) ∧ state.nonces = s.state.nonces ∧
        state.transitions = s.state.transitions := by
  have hmeter : Metered source ⟨0,q,b⟩ s := h.invariant {
    init := by
      rintro _ rfl
      exact ⟨by rw [h₀]; rfl,by rintro _ _ ⟨⟩,by rintro _ _ ⟨⟩⟩
    step := fun _ _ _ _ hi ha hs => hi.step ha hs }
  have hlog : LogRecorded pf s := h.invariant {
    init := by
      rintro _ rfl _ ⟨⟩
    step := fun _ _ _ _ hi _ hs => hi.step hs }
  have hnonces : NoncesSpent s := h.invariant {
    init := by
      rintro _ rfl
      exact ⟨by rintro _ ⟨⟩,List.nodup_nil⟩
    step := fun _ _ _ _ hi _ hs => hi.step hs }
  have hlength : (s.costs source).length = (s.calls source).length := List.length_map ..
  have hnow := eq_of_charges hmeter.now
  have hnonneg := Meter.charges_nonneg hmeter.now hq hb
  rw [hlength] at hnow
  rw [hnow] at hnonneg
  refine ⟨⟨hnow,hnonneg⟩,fun k x hx => ⟨?_,?_,?_⟩,hnonces.distinct,fun _ _ _ _ => ProtectedState.unchanged_of_error⟩
  · exact (hlog x (List.mem_filter.mp (List.mem_of_getElem? hx)).1).2
  · have hbefore := eq_of_charges (hmeter.before k x hx)
    have hk : k < (s.costs source).length := hlength ▸ (List.getElem?_eq_some_iff.mp hx).1
    rwa [List.length_take_of_le hk.le] at hbefore
  · have hafter := eq_of_charges (hmeter.after k x hx)
    have hk : k < (s.costs source).length := hlength ▸ (List.getElem?_eq_some_iff.mp hx).1
    rwa [List.length_take_of_le hk,Nat.cast_succ] at hafter

/-- The counters of the sample source around each of its two acts -/
theorem counters_conserved_sample : ∃ (s : ProtectedRun) (x y : Reservation),
    Machine.Reaches ((machine samplePlatform).startingAt ⟨sampleState,[]⟩) (LeavesSource (py "agent")) s ∧ s.log = [x,y] ∧
    x.candidate = sampleAct (py "n") .none ∧ y.candidate = sampleAct (py "m") .none ∧
    (s.state.snapshot (py "agent")).1 = ⟨2,1000 - 2,1000 - 2⟩ ∧ x.before = ⟨0,1000 - 0,1000 - 0⟩ ∧
    x.after = ⟨1,1000 - 1,1000 - 1⟩ ∧ y.before = ⟨1,1000 - 1,1000 - 1⟩ := by
  obtain ⟨cap,state,store,cap',state',store',hauth,hauth'⟩ := exists_sample_authorize_two "n" "m" (by decide)
  obtain ⟨_,t,_,_,ht,_⟩ := ProtectedAuthority.authorize_eq_ok.mp hauth
  obtain ⟨_,t',_,_,ht',_⟩ := ProtectedAuthority.authorize_eq_ok.mp hauth'
  let x : Reservation := ⟨sampleAct (py "n") .none,1,t,(sampleState.snapshot (py "agent")).1,(state.snapshot (py "agent")).1⟩
  let y : Reservation := ⟨sampleAct (py "m") .none,1,t',(state.snapshot (py "agent")).1,(state'.snapshot (py "agent")).1⟩
  have leaves (s : ProtectedRun) (c : CandidateAct) : LeavesSource (py "agent") s (.transitionForAuthorization c 1) :=
    trivial
  have h₀ : (sampleState.snapshot (py "agent")).1 = ⟨0,1000,1000⟩ := rfl
  have h₁ : Machine.Reaches ((machine samplePlatform).startingAt ⟨sampleState,[]⟩) (LeavesSource (py "agent")) ⟨state,[x]⟩ :=
    Machine.reaches_of_step (leaves _ _) (ProtectedStep.reserve ht)
  have h₂ : Machine.Reaches ((machine samplePlatform).startingAt ⟨sampleState,[]⟩) (LeavesSource (py "agent")) ⟨state',[x,y]⟩ :=
    h₁.step (leaves _ _) (ProtectedStep.reserve ht')
  obtain ⟨⟨hnow,_⟩,hcalls,_⟩ := counters_conserved h₀ (by decide) (by decide) h₂
  have hlog : calls ⟨state',[x,y]⟩ (py "agent") = [x,y] := by
    refine List.filter_eq_self.mpr fun z hz => decide_eq_true ?_
    rcases List.mem_pair.mp hz with rfl | rfl <;> rfl
  rw [costs,hlog] at hnow hcalls
  obtain ⟨_,hbefore,hafter⟩ := hcalls 0 x rfl
  obtain ⟨_,hbefore',_⟩ := hcalls 1 y rfl
  exact ⟨_,x,y,h₂,rfl,rfl,rfl,hnow,hbefore,hafter,hbefore'⟩

end ProtectedRun
end ExecutionFinality
