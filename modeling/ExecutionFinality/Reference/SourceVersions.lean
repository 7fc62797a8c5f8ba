import ExecutionFinality.Library.PointUpdates
import ExecutionFinality.Reference.ProtectedRuns

/-! When the versions of the sources only move forward. -/
namespace ExecutionFinality
open Machine (Trace states)

namespace ProtectedRun
variable {pf : Platform} {s s' : ProtectedRun} {a : ProtectedCall} {t : List (ProtectedRun × ProtectedCall)}

/-- The version that `snapshot` shows for a source -/
def version (s : ProtectedRun) (source : PyStr) : Int := (s.state.snapshot source).1.version

/-- No version is lower in the later state. -/
def Advances (s s' : ProtectedRun) : Prop := ∀ source, s.version source ≤ s'.version source

/-- No two recorded transitions of one source have one `after_version`. -/
def DistinctVersions (s : ProtectedRun) : Prop :=
  ∀ i j x y, s.state.transitions i = some x → s.state.transitions j = some y → x.source = y.source →
    x.afterVersion = y.afterVersion → i = j

/-- The call configures no source whose version has moved from 0. -/
def KeepsVersions (s : ProtectedRun) : ProtectedCall → Prop
  | .configureSource source _ _ => s.version source ≤ 0
  | _ => True

theorem version_reserve {c : CandidateAct} {cost : Int} {x : StateTransition} {state : ProtectedState}
    (h : s.state.transitionForAuthorization pf c cost = (.ok x,state)) :
    (state.snapshot c.source).1.version = s.version c.source + 1 ∧ x.source = c.source ∧
      x.afterVersion = s.version c.source + 1 := by
  obtain ⟨hbefore,hafter⟩ := ProtectedState.transition_of_ok h
  obtain ⟨_,hreserves,_⟩ := ProtectedState.transitionForAuthorization_ok h
  have hnow : s.version c.source = x.beforeVersion := congrArg SourceState.version hbefore
  rw [hnow,hafter]
  exact ⟨hreserves.version,hreserves.source,hreserves.version⟩

/-- A step lowers no version unless it configures a source again. -/
theorem advances_iff (hs : ProtectedStep pf s a s') : Advances s s' ↔ KeepsVersions s a := by
  cases hs with
  | @reserve c cost x state h =>
    refine iff_of_true (fun source => ?_) trivial
    by_cases hc : source = c.source
    · subst hc
      have := (version_reserve h).1
      simp only [version] at this ⊢
      omega
    · exact (congrArg SourceState.version (ProtectedState.snapshot_of_ok h hc)).ge
  | refuse h =>
    exact iff_of_true (fun source => (congrArg SourceState.version
      ((ProtectedState.unchanged_of_error h).1 source)).ge) trivial
  | snapshot b =>
    exact iff_of_true (fun source => (congrArg SourceState.version
      (ProtectedState.snapshot_snapshot b source)).ge) trivial
  | configureSource b quota budget =>
    have hreset : (((s.state.configureSource b quota budget).snapshot b).1).version = 0 := by
      simp [ProtectedState.snapshot,ProtectedState.getSource,ProtectedState.configureSource]
    constructor
    · intro h
      exact (h b).trans_eq hreset
    · intro h source
      by_cases hb : source = b
      · subst hb
        exact h.trans_eq hreset.symm
      · exact (congrArg SourceState.version (ProtectedState.snapshot_configureSource_of_ne hb)).ge

theorem Advances.trans {s s' s'' : ProtectedRun} (h : Advances s s') (h' : Advances s' s'') : Advances s s'' :=
  fun source => (h source).trans (h' source)

/-- The recorded transitions of a source lie at or below its version, at different ones. -/
structure Recorded (s : ProtectedRun) : Prop where
  below : ∀ i x, s.state.transitions i = some x → x.afterVersion ≤ s.version x.source
  distinct : DistinctVersions s

/-- A step that records nothing and lowers no version keeps what is recorded in place. -/
theorem Recorded.of_eq (h : Recorded s) (hle : Advances s s') (ht : s'.state.transitions = s.state.transitions) :
    Recorded s' := by
  constructor
  · intro i x hx
    rw [ht] at hx
    exact (h.below i x hx).trans (hle x.source)
  · rw [DistinctVersions,ht]
    exact h.distinct

theorem Recorded.step (h : Recorded s) (ha : KeepsVersions s a) (hs : ProtectedStep pf s a s') : Recorded s' := by
  have hle := (advances_iff hs).mpr ha
  cases hs with
  | refuse hr => exact h.of_eq hle (ProtectedState.transitionForAuthorization_error hr).2
  | snapshot b => exact h.of_eq hle (ProtectedState.getSource_transitions s.state b)
  | configureSource => exact h.of_eq hle rfl
  | @reserve c cost x state hr =>
    obtain ⟨hversion,hsource,hafter⟩ := version_reserve hr
    obtain ⟨_,_,_,htransitions⟩ := ProtectedState.transitionForAuthorization_ok hr
    -- What was recorded for the source before is below the new transition.
    have old (i : PyStr) (y : StateTransition) (hy : s.state.transitions i = some y) (he : y.source = x.source) :
        y.afterVersion < x.afterVersion := by
      have := h.below i y hy
      rw [he,hsource] at this
      omega
    constructor
    · intro i y hy
      rw [htransitions] at hy
      rcases update_cases hy with ⟨_,hy⟩ | ⟨_,hy⟩
      · cases hy
        rw [hsource,hafter]
        exact hversion.ge
      · exact (h.below i y hy).trans (hle y.source)
    · intro i j y z hy hz he hv
      rw [htransitions] at hy hz
      rcases update_cases hy with ⟨hi,hy'⟩ | ⟨_,hy'⟩ <;> rcases update_cases hz with ⟨hj,hz'⟩ | ⟨_,hz'⟩
      · exact hi.trans hj.symm
      · cases hy'
        exact absurd hv (old j z hz' he.symm).ne'
      · cases hz'
        exact absurd hv (old i y hy' he).ne
      · exact h.distinct i j y z hy' hz' he hv

/-- Versions only move forward, in the states of a run and in its ledger, exactly when no
source is configured again after its version has moved. -/
theorem versions_forward_iff (h : Trace (machine pf) t s) :
    (states t s).Pairwise Advances ∧ DistinctVersions s ↔ ∀ x ∈ t, KeepsVersions x.1 x.2 := by
  have hstates : (states t s).Pairwise Advances ↔ ∀ x ∈ t, KeepsVersions x.1 x.2 :=
    h.pairwise_iff (fun _ _ _ => Advances.trans) fun _ _ _ hs => advances_iff hs
  rw [hstates]
  refine ⟨And.left,fun hall => ⟨hall,?_⟩⟩
  have hrecorded : Recorded s := (h.reaches hall).invariant {
    init := by
      rintro s ⟨_,_,ht,_⟩
      constructor
      · intro i x hx
        rw [ht] at hx
        cases hx
      · intro i j x y hx
        rw [ht] at hx
        cases hx
    step := fun _ _ _ _ hi ha hs => hi.step ha hs }
  exact hrecorded.distinct

/-- From counters at 0, 1000 and 1000 the sample act reserves its nonce. -/
private theorem exists_sampleReservation (nonce : String) (state : ProtectedState)
    (hn : state.nonces (py nonce) = none) (hs : (state.snapshot (py "agent")).1 = ⟨0,1000,1000⟩) :
    ∃ x state', state.transitionForAuthorization samplePlatform (sampleAct (py nonce) .none) 1 = (.ok x,state') ∧
      x.nonce = py nonce ∧ x.source = py "agent" ∧ x.afterVersion = 1 := by
  have hprints : SourceState.Prints samplePlatform ⟨0,1000,1000⟩ 1 := fun n hn => Platform.prints_of_lt
    ((show ∀ n ∈ [(0 : Int),0 + 1,1000,1000 - 1,1000,1000 - 1], n.natAbs < 10^9 by decide) n hn)
  obtain ⟨x,hx⟩ := ProtectedState.exists_nextTransition sampleNfc_fixesAscii
    (sampleAct_accepted (py nonce) .none (py_isText _) ⟨_,rfl⟩) hprints
  have hreserves := ProtectedState.nextTransition_reserves (by decide) hx
  have hsource : (state.getSource (sampleAct (py nonce) .none).source).1 = ⟨0,1000,1000⟩ := hs
  refine ⟨x,_,ProtectedState.transitionForAuthorization_eq_ok.mpr ⟨by decide,hn,?_,?_,?_,rfl⟩,hreserves.nonce,
    hreserves.source,(ProtectedState.nextTransition_after hx).1⟩
  · rw [hsource]
    decide
  · rw [hsource]
    decide
  · rw [hsource]
    exact hx

private theorem sample_start : Trace (machine samplePlatform) [] ⟨sampleState,[]⟩ :=
  .init ⟨fun _ => rfl,fun _ => rfl,fun _ => rfl,rfl⟩

/-- A source that is configured first and then used -/
theorem versions_forward_sample : ∃ (t : List (ProtectedRun × ProtectedCall)) (s : ProtectedRun),
    t.map Prod.snd = [.configureSource (py "agent") 1000 1000,
      .transitionForAuthorization (sampleAct (py "n") .none) 1] ∧
    Trace (machine samplePlatform) t s ∧ (states t s).Pairwise Advances ∧ DistinctVersions s := by
  have hs : ((sampleState.configureSource (py "agent") 1000 1000).snapshot (py "agent")).1 = ⟨0,1000,1000⟩ := rfl
  obtain ⟨x,state,hx,_⟩ := exists_sampleReservation "n" _ rfl hs
  have hrun := (sample_start.step (ProtectedStep.configureSource (py "agent") 1000 1000)).step (ProtectedStep.reserve hx)
  refine ⟨_,_,?_,hrun,(versions_forward_iff hrun).mpr ?_⟩
  · rfl
  · simp only [List.nil_append,List.cons_append,List.forall_mem_cons,KeepsVersions]
    exact ⟨le_refl (0 : Int),trivial,fun _ h => (nomatch h)⟩

/-- Configuring a source in use takes its version back to 0, and the next act repeats version 1. -/
theorem versions_reset : ∃ (t : List (ProtectedRun × ProtectedCall)) (s : ProtectedRun),
    t.map Prod.snd = [.transitionForAuthorization (sampleAct (py "n") .none) 1,
      .configureSource (py "agent") 1000 1000,.transitionForAuthorization (sampleAct (py "m") .none) 1] ∧
    Trace (machine samplePlatform) t s ∧ ¬ (states t s).Pairwise Advances ∧ ¬ DistinctVersions s := by
  obtain ⟨x,state,hx,hxn,hxs,hxv⟩ := exists_sampleReservation "n" sampleState rfl rfl
  obtain ⟨_,hxr,hxnonces,hxledger⟩ := ProtectedState.transitionForAuthorization_ok hx
  have hnew : (state.configureSource (py "agent") 1000 1000).nonces (py "m") = none := by
    change state.nonces (py "m") = none
    rw [hxnonces,Function.update_of_ne]
    · rfl
    · decide
  have hreset : ((state.configureSource (py "agent") 1000 1000).snapshot (py "agent")).1 = ⟨0,1000,1000⟩ := by
    simp [ProtectedState.snapshot,ProtectedState.getSource,ProtectedState.configureSource]
  obtain ⟨y,state',hy,hyn,hys,hyv⟩ := exists_sampleReservation "m" _ hnew hreset
  obtain ⟨_,hyr,_,hyledger⟩ := ProtectedState.transitionForAuthorization_ok hy
  have hid : x.transitionId ≠ y.transitionId := by
    intro he
    obtain ⟨_,_,hxid⟩ := hxr.transitionId
    obtain ⟨_,_,hyid⟩ := hyr.transitionId
    have hsame : SameText sampleNfc x.nonce y.nonce :=
      (samplePlatform_noCollision.sameNormal hxid (he ▸ hyid)).text "nonce" (by simp [ProtectedState.transitionCore])
        (by simp [ProtectedState.transitionCore])
    rw [hxn,hyn] at hsame
    revert hsame
    decide
  have hrun := ((sample_start.step (ProtectedStep.reserve hx)).step
    (ProtectedStep.configureSource (py "agent") 1000 1000)).step (ProtectedStep.reserve hy)
  refine ⟨_,_,rfl,hrun,?_,?_⟩
  · intro hadvances
    have hversion := (List.pairwise_cons.mp (List.pairwise_cons.mp hadvances).2).1 _ (List.mem_cons_self ..) (py "agent")
    have hone := (version_reserve (s := ⟨sampleState,[]⟩) hx).1
    simp only [version,hreset] at hversion
    have hzero : (ProtectedRun.version ⟨sampleState,[]⟩ (sampleAct (py "n") .none).source) = 0 := rfl
    rw [hzero] at hone
    have : (state.snapshot (py "agent")).1.version = 0 + 1 := hone
    omega
  · intro hdistinct
    apply hid
    refine hdistinct _ _ x y ?_ ?_ (hxs.trans hys.symm) (hxv.trans hyv.symm)
    · change state'.transitions x.transitionId = some x
      rw [hyledger,Function.update_of_ne hid]
      change state.transitions x.transitionId = some x
      rw [hxledger]
      exact Function.update_self ..
    · change state'.transitions y.transitionId = some y
      rw [hyledger]
      exact Function.update_self ..

end ProtectedRun
end ExecutionFinality
