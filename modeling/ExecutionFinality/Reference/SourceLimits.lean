import ExecutionFinality.Reference.ProtectedRuns
import ExecutionFinality.Reference.SingleUse
import Mathlib.Algebra.Order.BigOperators.Group.List

/-! What the limits of a source bound over whole runs: quota, budget and revocation are
looked up under the source as it is spelled, the act is signed under its normal form. -/
namespace ExecutionFinality
open Function (update)
open Platform

/-- The system and what its calls of `authorize` have charged, under the number of the call,
the oldest first. -/
structure AccountedRun where
  system : System
  log : List (Nat × Reservation)

namespace Deployment

/-- What a step charges to a source. -/
def charges (D : Deployment) (s : System) : Action → List (Nat × Reservation)
  | .reserve k c cost now =>
    match D.authority.admission D.pf c now,s.state.transitionForAuthorization D.pf c cost with
    | .ok _,(.ok t,state) => [(k,⟨c,cost,t,(s.state.snapshot c.source).1,(state.snapshot c.source).1⟩)]
    | _,_ => []
  | _ => []

def accounted (D : Deployment) : Machine AccountedRun Action where
  Init s := s.system.Initial ∧ s.log = []
  Step s a s' := Step D s.system a s'.system ∧ s'.log = s.log ++ D.charges s.system a

end Deployment

def Action.Unconfigured : Action → Prop
  | .configureSource _ _ _ => False
  | _ => True

/-- A call of `authorize` presents its source as it is spelled where it was charged before and
where the policy revokes it. -/
def SourceSpelledOnce (D : Deployment) (s : System) : Action → Prop
  | .reserve _ c _ _ =>
    (∀ a, (s.state.snapshot a).1.version ≠ 0 → SameText D.pf.nfc a c.source → a = c.source) ∧
      ∀ r ∈ D.authority.policy.revokedSources, SameText D.pf.nfc r c.source → r = c.source
  | _ => True

theorem Policy.unrevoked_of_validate {p : Policy} {c : CandidateAct} {now : Int}
    (h : (p.validate c now).1 = true) : c.source ∉ p.revokedSources := by
  intro hs
  simp [Policy.validate,Policy.checks,hs] at h

namespace AccountedRun
variable {D : Deployment} {s₀ : System} {s s' : AccountedRun} {a : Action}

/-- The protected state alone and its log. -/
def ledger (s : AccountedRun) : ProtectedRun := ⟨s.system.state,s.log.map Prod.snd⟩

/-- The calls that returned a capability for a spelling of the source. -/
def authorized (s : AccountedRun) (pf : Platform) (source : PyStr) : List (Nat × Reservation) :=
  s.log.filter fun x => SameText pf.nfc x.2.candidate.source source ∧ (s.system.authorizing x.1).capability?.isSome

/-- A step that charges nothing -/
structure Uncharged (s s' : AccountedRun) : Prop where
  log : s'.log = s.log
  snapshot : ∀ b, (s'.system.state.snapshot b).1 = (s.system.state.snapshot b).1
  reserved : ∀ k c, (s'.system.authorizing k).reserved? = some c → (s.system.authorizing k).reserved? = some c
  begun : ∀ k, s'.system.authorizing k = .idle → s.system.authorizing k = .idle

/-- The step that charges what `x` says -/
structure Charged (D : Deployment) (s s' : AccountedRun) (k : Nat) (now : Int) (x : Reservation) : Prop where
  idle : s.system.authorizing k = .idle
  admitted : ∃ d, D.authority.admission D.pf x.candidate now = .ok d
  reserve : s.system.state.transitionForAuthorization D.pf x.candidate x.cost = (.ok x.transition,s'.system.state)
  before : x.before = (s.system.state.snapshot x.candidate.source).1
  after : x.after = (s'.system.state.snapshot x.candidate.source).1
  log : s'.log = s.log ++ [(k,x)]
  reserved : ∃ p, p.reserved? = some x.candidate ∧ s'.system.authorizing = update s.system.authorizing k p

/-- What a step of a system that nobody configures does to the accounts. -/
theorem step_cases (hs : D.accounted.Step s a s') (ha : a.Unconfigured) :
    Uncharged s s' ∨ ∃ k c cost now x, a = .reserve k c cost now ∧ x.candidate = c ∧ Charged D s s' k now x := by
  obtain ⟨system,log⟩ := s'
  obtain ⟨hs,hlog⟩ := hs
  dsimp only at hs hlog
  have kept {k : Nat} {p : Authorizing} (hp : ∀ c, p.reserved? = some c →
      (s.system.authorizing k).reserved? = some c) (j : Nat) (c : CandidateAct)
      (hj : (update s.system.authorizing k p j).reserved? = some c) :
      (s.system.authorizing j).reserved? = some c := by
    rcases proj_update_cases hj with ⟨rfl,hv⟩ | ⟨_,hv⟩
    · exact hp c hv
    · exact hv
  have begun {k : Nat} {p : Authorizing} (hp : p ≠ .idle) (j : Nat)
      (hj : update s.system.authorizing k p j = .idle) : s.system.authorizing j = .idle := by
    rcases update_cases hj with ⟨_,hv⟩ | ⟨_,hj⟩
    · exact absurd hv hp
    · exact hj
  cases hs with
  | @reserve k c cost now d t state hk hadm ht =>
    refine .inr ⟨k,c,cost,now,⟨c,cost,t,(s.system.state.snapshot c.source).1,(state.snapshot c.source).1⟩,
      rfl,rfl,hk,⟨d,hadm⟩,ht,rfl,rfl,?_,.reserved c now d t,rfl,rfl⟩
    rw [hlog]
    simp only [Deployment.charges,hadm,ht]
  | @refuse k c cost now d e state hk hadm ht =>
    refine .inl ⟨?_,(ProtectedState.unchanged_of_error ht).1,kept nofun,begun nofun⟩
    rw [hlog]
    simp only [Deployment.charges,hadm,ht,List.append_nil]
  | commitEvidence hk =>
    exact .inl ⟨hlog.trans (List.append_nil _),fun _ => rfl,kept fun _ hc => by rw [hk]; exact hc,begun nofun⟩
  | failEvidence => exact .inl ⟨hlog.trans (List.append_nil _),fun _ => rfl,kept nofun,begun nofun⟩
  | issue hk => exact .inl ⟨hlog.trans (List.append_nil _),fun _ => rfl,kept fun _ hc => by rw [hk]; exact hc,begun nofun⟩
  | configureSource => cases ha
  | _ => exact .inl ⟨hlog.trans (List.append_nil _),fun _ => rfl,fun _ _ h => h,fun _ h => h⟩

/-- The accounts of a run: the meter of every source as it is spelled, and the calls they are from. -/
structure Accounted (D : Deployment) (s₀ : System) (s : AccountedRun) : Prop where
  metered : ∀ source, ProtectedRun.Metered source (s₀.state.snapshot source).1 s.ledger
  reserved : ∀ k c, (s.system.authorizing k).reserved? = some c → ∃ x ∈ s.log, x.1 = k ∧ x.2.candidate = c
  begun : ∀ x ∈ s.log, s.system.authorizing x.1 ≠ .idle
  distinct : (s.log.map Prod.fst).Nodup
  unrevoked : ∀ x ∈ s.log, x.2.candidate.source ∉ D.authority.policy.revokedSources

theorem Accounted.start (h : s₀.Initial) : Accounted D s₀ ⟨s₀,[]⟩ where
  metered _ := ⟨rfl,by rintro _ _ ⟨⟩,by rintro _ _ ⟨⟩⟩
  reserved k c hk := by simp [h.authorizing,Authorizing.reserved?] at hk
  begun := by rintro _ ⟨⟩
  distinct := List.nodup_nil
  unrevoked := by rintro _ ⟨⟩

variable {k : Nat} {now : Int} {x : Reservation}

theorem Uncharged.accounted (h : Accounted D s₀ s) (hs : Uncharged s s') : Accounted D s₀ s' where
  metered source := (h.metered source).of_eq (congrArg (List.map Prod.snd) hs.log) (hs.snapshot source)
  reserved k c hk := by
    rw [hs.log]
    exact h.reserved k c (hs.reserved k c hk)
  begun x hx hk := h.begun x (hs.log ▸ hx) (hs.begun _ hk)
  distinct := by
    rw [hs.log]
    exact h.distinct
  unrevoked := by
    rw [hs.log]
    exact h.unrevoked

theorem Charged.step (hs : Charged D s s' k now x) :
    ProtectedStep D.pf s.ledger (.transitionForAuthorization x.candidate x.cost) s'.ledger := by
  have hstep := ProtectedStep.reserve (s := s.ledger) hs.reserve
  rw [show s.ledger.state = s.system.state from rfl,← hs.before,← hs.after] at hstep
  have hlog : s'.ledger = ⟨s'.system.state,s.log.map Prod.snd ++ [x]⟩ := by
    rw [ledger,hs.log,List.map_append,List.map_singleton]
  exact hlog ▸ hstep

theorem Charged.accounted (h : Accounted D s₀ s) (hs : Charged D s s' k now x) : Accounted D s₀ s' := by
  obtain ⟨p,hp,hauthorizing⟩ := hs.reserved
  have new (y : Nat × Reservation) (hy : y ∈ s'.log) : y ∈ s.log ∨ y = (k,x) := by
    rw [hs.log] at hy
    exact (List.mem_append.mp hy).imp_right List.mem_singleton.mp
  constructor
  · intro source
    exact (h.metered source).step (show ProtectedRun.LeavesSource source s.ledger (.transitionForAuthorization _ _)
      from trivial) hs.step
  · intro j c hj
    rw [hs.log]
    rw [hauthorizing] at hj
    rcases proj_update_cases hj with ⟨rfl,hv⟩ | ⟨_,hv⟩
    · cases hp.symm.trans hv
      exact ⟨(j,x),List.mem_append_right _ (List.mem_singleton.mpr rfl),rfl,rfl⟩
    · obtain ⟨y,hy,hyj⟩ := h.reserved j c hv
      exact ⟨y,List.mem_append_left _ hy,hyj⟩
  · intro y hy
    rw [hauthorizing]
    rcases new y hy with hy | rfl
    · rw [Function.update_of_ne]
      · exact h.begun y hy
      · intro he
        exact h.begun y hy (he ▸ hs.idle)
    · rw [Function.update_self]
      rintro rfl
      cases hp
  · rw [hs.log,List.map_append,List.nodup_append]
    refine ⟨h.distinct,List.nodup_singleton _,fun i hi j hj he => ?_⟩
    obtain ⟨y,hy,rfl⟩ := List.mem_map.mp hi
    cases List.mem_singleton.mp hj
    exact h.begun y hy (he ▸ hs.idle)
  · intro y hy
    rcases new y hy with hy | rfl
    · exact h.unrevoked y hy
    · obtain ⟨d,hd⟩ := hs.admitted
      exact Policy.unrevoked_of_validate (ProtectedAuthority.admission_eq_ok.mp hd).2

theorem Accounted.step (h : Accounted D s₀ s) (ha : a.Unconfigured) (hs : D.accounted.Step s a s') :
    Accounted D s₀ s' := by
  rcases step_cases hs ha with hs | ⟨_,_,_,_,_,_,_,hs⟩
  · exact hs.accounted h
  · exact hs.accounted h

section Fresh
variable (h : Accounted D s₀ s) (h₀ : ∀ a, s₀.state.sources a = none)
include h h₀

theorem Accounted.charges_of_fresh (source : PyStr) :
    (⟨0,s₀.state.defaultQuota,s₀.state.defaultBudget⟩ : SourceState).meter.charges (s.ledger.costs source) =
      some (s.system.state.snapshot source).1.meter := by
  have hm := (h.metered source).now
  rwa [ProtectedState.snapshot,ProtectedState.getSource,h₀] at hm

/-- The counters of a source of a fresh state are the defaults less the charges. -/
theorem Accounted.counters (source : PyStr) : (s.system.state.snapshot source).1 =
    ⟨(s.ledger.costs source).length,s₀.state.defaultQuota - (s.ledger.costs source).length,
      s₀.state.defaultBudget - (s.ledger.costs source).sum⟩ := by
  exact ProtectedRun.eq_of_charges (h.charges_of_fresh h₀ source)

theorem Accounted.charged {y : Nat × Reservation} (hy : y ∈ s.log) :
    (s.system.state.snapshot y.2.candidate.source).1.version ≠ 0 := by
  have hcall : y.2.cost ∈ s.ledger.costs y.2.candidate.source :=
    List.mem_map_of_mem (List.mem_filter.mpr ⟨List.mem_map_of_mem hy,by simp⟩)
  rw [h.counters h₀]
  have := List.length_pos_of_mem hcall
  dsimp only
  omega

theorem Accounted.costs_bounded (hq : 0 ≤ s₀.state.defaultQuota) (hb : 0 ≤ s₀.state.defaultBudget) (source : PyStr) :
    (s.ledger.costs source).length ≤ s₀.state.defaultQuota ∧ (s.ledger.costs source).sum ≤ s₀.state.defaultBudget := by
  have hnonneg := Meter.charges_nonneg (h.charges_of_fresh h₀ source) hq hb
  rw [h.counters h₀] at hnonneg
  exact ⟨Int.sub_nonneg.mp hnonneg.1,Int.sub_nonneg.mp hnonneg.2⟩

/-- Calls among those of a source stay within what the source starts with. -/
theorem Accounted.sublist_bounded (hq : 0 ≤ s₀.state.defaultQuota) (hb : 0 ≤ s₀.state.defaultBudget) {source : PyStr}
    {xs : List Reservation} (hsub : List.Sublist xs (s.ledger.calls source)) :
    (xs.length : Int) ≤ s₀.state.defaultQuota ∧ (xs.map (·.cost)).sum ≤ s₀.state.defaultBudget := by
  have hbounds := h.costs_bounded h₀ hq hb source
  have hcosts : List.Sublist (xs.map (·.cost)) (s.ledger.costs source) := hsub.map (·.cost)
  have hlength := hcosts.length_le
  rw [List.length_map] at hlength
  exact ⟨(Int.ofNat_le.mpr hlength).trans hbounds.1,
    (hcosts.sum_le_sum fun cost hc => (Meter.charges_pos (h.metered source).now cost hc).le).trans hbounds.2⟩

end Fresh

/-- The spellings under which the log has charges: one for each source, none of a revoked source. -/
structure SpelledOnce (D : Deployment) (s : AccountedRun) : Prop where
  alike : ∀ x ∈ s.log, ∀ y ∈ s.log, SameText D.pf.nfc x.2.candidate.source y.2.candidate.source →
    x.2.candidate.source = y.2.candidate.source
  unrevoked : ∀ x ∈ s.log, ∀ r ∈ D.authority.policy.revokedSources, ¬ SameText D.pf.nfc r x.2.candidate.source

theorem SpelledOnce.step (h : SpelledOnce D s) (hacc : Accounted D s₀ s) (h₀ : ∀ a, s₀.state.sources a = none)
    (ha : a.Unconfigured) (honce : SourceSpelledOnce D s.system a) (hs : D.accounted.Step s a s') :
    SpelledOnce D s' := by
  rcases step_cases hs ha with hnone | ⟨k,c,cost,now,x,rfl,rfl,hx⟩
  · constructor
    · rw [hnone.log]
      exact h.alike
    · rw [hnone.log]
      exact h.unrevoked
  · obtain ⟨hcharged,hrevoked⟩ := honce
    have new (y : Nat × Reservation) (hy : y ∈ s'.log) : y ∈ s.log ∨ y = (k,x) := by
      rw [hx.log] at hy
      exact (List.mem_append.mp hy).imp_right List.mem_singleton.mp
    constructor
    · intro y hy z hz hyz
      rcases new y hy with hy | rfl <;> rcases new z hz with hz | rfl
      · exact h.alike y hy z hz hyz
      · exact hcharged _ (hacc.charged h₀ hy) hyz
      · exact (hcharged _ (hacc.charged h₀ hz) hyz.symm).symm
      · rfl
    · intro y hy r hr hry
      rcases new y hy with hy | rfl
      · exact h.unrevoked y hy r hr hry
      · obtain ⟨d,hd⟩ := hx.admitted
        exact Policy.unrevoked_of_validate (ProtectedAuthority.admission_eq_ok.mp hd).2 (hrevoked r hr hry ▸ hr)

/-- The authorized calls of a source are among the calls of one of its spellings. -/
theorem SpelledOnce.authorized_sublist (h : SpelledOnce D s) (source : PyStr) :
    ∃ b, List.Sublist ((s.authorized D.pf source).map Prod.snd) (s.ledger.calls b) := by
  cases hx : s.authorized D.pf source with
  | nil => exact ⟨[],List.nil_sublist _⟩
  | cons x xs =>
    have mem (y : Nat × Reservation) (hy : y ∈ s.authorized D.pf source) :
        y ∈ s.log ∧ SameText D.pf.nfc y.2.candidate.source source := by
      obtain ⟨hlog,hy⟩ := List.mem_filter.mp hy
      exact ⟨hlog,(of_decide_eq_true hy).1⟩
    obtain ⟨hlog,hsource⟩ := mem x (hx ▸ List.mem_cons_self ..)
    refine ⟨x.2.candidate.source,?_⟩
    have hsub : List.Sublist ((s.authorized D.pf source).map Prod.snd) s.ledger.log := List.filter_sublist.map _
    have hcalls := hsub.filter fun y => y.candidate.source = x.2.candidate.source
    rw [List.filter_eq_self.mpr] at hcalls
    · exact hx ▸ hcalls
    · intro y hy
      obtain ⟨z,hz,rfl⟩ := List.mem_map.mp hy
      obtain ⟨hzlog,hzsource⟩ := mem z hz
      exact decide_eq_true (h.alike z hzlog x hlog (hzsource.trans hsource.symm))

/-- What a run from a fresh state, whose sources keep their spellings, accounts for -/
theorem accounts {allowed : AccountedRun → Action → Prop} (h₀ : s₀.Initial) (hsources : ∀ a, s₀.state.sources a = none)
    (hle : ∀ s a, allowed s a → a.Unconfigured ∧ SourceSpelledOnce D s.system a)
    (h : Machine.Reaches (D.accounted.startingAt ⟨s₀,[]⟩) allowed s) : Accounted D s₀ s ∧ SpelledOnce D s := by
  induction h with
  | init h =>
    cases h
    exact ⟨.start h₀,by rintro _ ⟨⟩,by rintro _ ⟨⟩⟩
  | step _ ha hs ih =>
    obtain ⟨hacc,honce⟩ := ih
    obtain ⟨hunconfigured,hspelled⟩ := hle _ _ ha
    exact ⟨hacc.step hunconfigured hs,honce.step hacc hsources hunconfigured hspelled hs⟩

/-- While no source is respelled, the capabilities of a source, in all its spellings, stay within
the quota and the budget that one source starts with, and a revoked source has none. -/
theorem source_limits_kept {s₀ : System} (h₀ : s₀.Initial) (hsources : ∀ a, s₀.state.sources a = none)
    (hq : 0 ≤ s₀.state.defaultQuota) (hb : 0 ≤ s₀.state.defaultBudget)
    (h : Machine.Reaches (D.accounted.startingAt ⟨s₀,[]⟩)
      (fun s a => a.Unconfigured ∧ SourceSpelledOnce D s.system a) s) (source : PyStr) :
    ((s.authorized D.pf source).length ≤ s₀.state.defaultQuota ∧
      ((s.authorized D.pf source).map (·.2.cost)).sum ≤ s₀.state.defaultBudget ∧
      ((∃ r ∈ D.authority.policy.revokedSources, SameText D.pf.nfc r source) → s.authorized D.pf source = [])) ∧
    ∀ k c e cap, s.system.authorizing k = .returned c e cap → ∃! x, x ∈ s.log ∧ x.1 = k := by
  obtain ⟨hacc,honce⟩ := accounts h₀ hsources (fun _ _ ha => ha) h
  obtain ⟨b,hsub⟩ := honce.authorized_sublist source
  obtain ⟨hlength,hcosts⟩ := hacc.sublist_bounded hsources hq hb hsub
  rw [List.length_map] at hlength
  rw [List.map_map] at hcosts
  refine ⟨⟨hlength,hcosts,?_⟩,?_⟩
  · rintro ⟨r,hr,hsource⟩
    apply List.eq_nil_iff_forall_not_mem.mpr
    intro x hx
    obtain ⟨hlog,hx⟩ := List.mem_filter.mp hx
    exact honce.unrevoked x hlog r hr (hsource.trans (of_decide_eq_true hx).1.symm)
  · intro k c e cap hk
    obtain ⟨x,hx,rfl,_⟩ := hacc.reserved k c (by rw [hk]; rfl)
    refine ⟨x,⟨hx,rfl⟩,fun y hy => ?_⟩
    exact List.inj_on_of_nodup_map hacc.distinct hy.1 hx hy.2

/-- A call of `authorize` that returns runs without interruption. -/
theorem reaches_afterAuthorize {start : AccountedRun} {allowed : AccountedRun → Action → Prop} {c : CandidateAct}
    {cost : Int} {cap : Capability} {state : ProtectedState} {evidence : EvidenceStore}
    (h : Machine.Reaches (D.accounted.startingAt start) allowed s) (hk : s.system.authorizing k = .idle)
    (hauth : D.authority.authorize D.pf s.system.state s.system.evidence c cost now = (.ok cap,state,evidence))
    (hreserve : allowed s (.reserve k c cost now)) (hcommit : ∀ s, allowed s (.commitEvidence k))
    (hissue : ∀ s, allowed s (.issue k)) :
    ∃ e x, x.candidate = c ∧ Machine.Reaches (D.accounted.startingAt start) allowed
      ⟨s.system.afterAuthorize D k c e cap state evidence,s.log ++ [(k,x)]⟩ := by
  obtain ⟨d,t,e,ha,ht,he,hc,hcap⟩ := ProtectedAuthority.authorize_eq_ok.mp hauth
  let x : Reservation := ⟨c,cost,t,(s.system.state.snapshot c.source).1,(state.snapshot c.source).1⟩
  have h1 : D.accounted.Step s (.reserve k c cost now)
      ⟨{ s.system with state, authorizing := update s.system.authorizing k (.reserved c now d t) },s.log ++ [(k,x)]⟩ :=
    ⟨Step.reserve hk ha ht,by simp only [Deployment.charges,ha,ht,x]⟩
  have free {system system' : System} {log : List (Nat × Reservation)} {a : Action}
      (hs : Step D system a system') (hcharges : D.charges system a = []) :
      D.accounted.Step ⟨system,log⟩ a ⟨system',log⟩ := ⟨hs,by simp only [hcharges,List.append_nil]⟩
  have h2 := (h.step hreserve h1).step (hcommit _) (free (Step.commitEvidence (k := k) (by simp)
    (ProtectedAuthority.evidence_eq_ok.mpr he) hc) rfl)
  have h3 := h2.step (hissue _) (free (Step.issue (k := k) (by simp)
    (ProtectedAuthority.capability_eq_ok.mpr hcap)) rfl)
  refine ⟨e,x,rfl,?_⟩
  simpa only [System.afterAuthorize,Function.update_idem] using h3

/-- The sample source within its limits after two acts, each of which the theorem counts once -/
theorem source_limits_kept_sample : ∃ (s : AccountedRun) (e e' : ValidationEvidence) (cap cap' : Capability),
    s.system.authorizing 0 = .returned (sampleAct (py "n") .none) e cap ∧
    s.system.authorizing 1 = .returned (sampleAct (py "m") .none) e' cap' ∧ s.log.map Prod.fst = [0,1] ∧
    (s.authorized samplePlatform (py "agent")).length ≤ (1000 : Int) ∧
    ((s.authorized samplePlatform (py "agent")).map (·.2.cost)).sum ≤ 1000 ∧
    (∃! x, x ∈ s.log ∧ x.1 = 0) ∧ ∃! x, x ∈ s.log ∧ x.1 = 1 := by
  obtain ⟨cap,state,store,cap',state',store',hauth,hauth'⟩ := exists_sample_authorize_two "n" "m" (by decide)
  obtain ⟨_,_,_,_,htr,_⟩ := ProtectedAuthority.authorize_eq_ok.mp hauth
  have h₀ : Machine.Reaches (sampleDeployment.accounted.startingAt ⟨sampleSystem,[]⟩)
      (fun s a => a.Unconfigured ∧ SourceSpelledOnce sampleDeployment s.system a) ⟨sampleSystem,[]⟩ := .init rfl
  obtain ⟨e,x,_,h1⟩ := reaches_afterAuthorize h₀ (k := 0) rfl hauth
    ⟨trivial,fun a ha => absurd rfl ha,fun r hr => absurd hr (Finset.notMem_empty r)⟩ (fun _ => ⟨trivial,trivial⟩)
    (fun _ => ⟨trivial,trivial⟩)
  have hspelled (a : PyStr) (ha : (state.snapshot a).1.version ≠ 0) : a = py "agent" := by
    by_contra hne
    rw [ProtectedState.snapshot_of_ok htr hne] at ha
    exact ha rfl
  obtain ⟨e',y,_,h2⟩ := reaches_afterAuthorize h1 (k := 1) (System.afterAuthorize_authorizing_of_ne (by decide)) hauth'
    ⟨trivial,fun a ha _ => hspelled a ha,fun r hr => absurd hr (Finset.notMem_empty r)⟩ (fun _ => ⟨trivial,trivial⟩)
    (fun _ => ⟨trivial,trivial⟩)
  obtain ⟨⟨hlength,hcosts,_⟩,hcalls⟩ := source_limits_kept sampleSystem_initial (fun _ => rfl) (by decide) (by decide) h2
    (py "agent")
  let s := sampleSystem.afterAuthorize sampleDeployment 0 (sampleAct (py "n") .none) e cap state store
  let s' := s.afterAuthorize sampleDeployment 1 (sampleAct (py "m") .none) e' cap' state' store'
  have hfirst : s'.authorizing 0 = .returned (sampleAct (py "n") .none) e cap :=
    (System.afterAuthorize_authorizing_of_ne (by decide)).trans System.afterAuthorize_authorizing
  have hsecond : s'.authorizing 1 = .returned (sampleAct (py "m") .none) e' cap' := System.afterAuthorize_authorizing
  exact ⟨_,e,e',cap,cap',hfirst,hsecond,rfl,hlength,hcosts,hcalls 0 _ e cap hfirst,hcalls 1 _ e' cap' hsecond⟩

private def spelledAct (source nonce : PyStr) : CandidateAct := { sampleAct nonce .none with source }

private theorem spelled_admissible {source nonce : PyStr} (hs : source.IsText) (hn : nonce.IsText)
    {state : ProtectedState} {store : EvidenceStore} {now : Int} (hnew : state.nonces nonce = none)
    (hst : (state.getSource source).1 = ⟨0,1,1⟩) (hlow : 200 ≤ now) (hhigh : now ≤ 201)
    (hauthenticator : store.authenticator = sampleAuthority.authenticator) (hcommits : store.failCommits = false)
    (hevidence : ∀ d t e, ProtectedAuthority.EvidenceFor samplePlatform sampleAuthority d
      (spelledAct source nonce) t now e → store.records e.evidenceId = none) :
    Admissible samplePlatform sampleAuthority state store (spelledAct source nonce) 1 now where
  accepted := by
    obtain ⟨h1,h2,h3,_,h5⟩ := (CandidateAct.accepts_iff sampleNfc_fixesAscii).mp
      (sampleAct_accepted nonce .none hn ⟨_,rfl⟩)
    exact (CandidateAct.accepts_iff sampleNfc_fixesAscii).mpr ⟨h1,h2,h3,hs,h5⟩
  policy := sampleAct_validates nonce .none now (by omega) (by omega)
  costPositive := by decide
  nonce := hnew
  quota := hst ▸ le_refl 1
  budget := hst ▸ le_refl 1
  source := by
    rw [show (state.getSource (spelledAct source nonce).source).1 = ⟨0,1,1⟩ from hst]
    exact fun n hn => prints_of_lt
      ((show ∀ n ∈ [(0 : Int),0 + 1,1,1 - 1,1,1 - 1], n.natAbs < 10^9 by decide) n hn)
  authorityId := py_isText _
  keyId := py_isText _
  canSign := fun _ _ => (nomatch ·)
  trusts := by
    rw [hauthenticator]
    exact (Authenticator.signer_paired _ _).trusts
  commits := hcommits
  evidence := hevidence
  nowPrints := prints_of_lt (by omega)
  expiresPrints := prints_of_lt (show (min ((100 : Int) + 1000) (now + 5000000000)).natAbs < 10^9 by omega)

/-- A fresh state whose sources have one unit each -/
private def unitSystem : System := { sampleSystem with state := { sampleState with defaultQuota := 1, defaultBudget := 1 } }

/-- The source `K` has one unit; it is used under `K` and once more under the Kelvin sign. -/
theorem source_limits_evaded : ∃ (s₀ : System) (s : AccountedRun), s₀.Initial ∧ (∀ a, s₀.state.sources a = none) ∧
    s₀.state.defaultQuota = 1 ∧ s₀.state.defaultBudget = 1 ∧
    Machine.Reaches (sampleDeployment.accounted.startingAt ⟨s₀,[]⟩) (fun _ a => a.Unconfigured) s ∧
    (s.authorized samplePlatform (py "K")).length = 2 := by
  have hfirst : Admissible samplePlatform sampleAuthority unitSystem.state unitSystem.evidence
      (spelledAct (py "K") (py "n")) 1 200 :=
    spelled_admissible (py_isText _) (py_isText _) rfl rfl (by decide) (by decide) rfl rfl fun _ _ _ _ => rfl
  obtain ⟨cap,state,store,hauth⟩ := hfirst.authorize sampleNfc_fixesAscii
  obtain ⟨d,t,e,_,htr,he,hcommit,_⟩ := ProtectedAuthority.authorize_eq_ok.mp hauth
  obtain ⟨_,_,hnonces,_⟩ := ProtectedState.transitionForAuthorization_ok htr
  obtain ⟨_,_,_,hstore⟩ := EvidenceStore.commit_eq_ok.mp hcommit
  have hkelvin : (state.getSource (py "\u212A")).1 = ⟨0,1,1⟩ := ProtectedState.snapshot_of_ok htr (by decide)
  have hsecond : Admissible samplePlatform sampleAuthority state store
      (spelledAct (py "\u212A") (py "m")) 1 201 := by
    refine spelled_admissible (py_isText _) (py_isText _) ?_ hkelvin (by decide) (by decide) (hstore ▸ rfl) (hstore ▸ rfl)
      fun d' t' e' he' => ?_
    · rw [hnonces]
      exact Function.update_of_ne (by decide) ..
    · rw [hstore]
      exact Function.update_of_ne (he'.evidenceId_ne samplePlatform_noCollision he (by decide)) ..
  obtain ⟨cap',state',store',hauth'⟩ := hsecond.authorize sampleNfc_fixesAscii
  have h₀ : Machine.Reaches (sampleDeployment.accounted.startingAt ⟨unitSystem,[]⟩) (fun _ a => a.Unconfigured)
      ⟨unitSystem,[]⟩ := .init rfl
  obtain ⟨e₁,x,hx,h1⟩ := reaches_afterAuthorize h₀ (k := 0) rfl hauth trivial (fun _ => trivial) (fun _ => trivial)
  obtain ⟨e₂,y,hy,h2⟩ := reaches_afterAuthorize h1 (k := 1) (System.afterAuthorize_authorizing_of_ne (by decide))
    hauth' trivial (fun _ => trivial) (fun _ => trivial)
  refine ⟨unitSystem,_,?_,fun _ => rfl,rfl,rfl,h2,?_⟩
  · exact { sampleSystem_initial with nonces := fun _ => rfl, transitions := fun _ => rfl }
  · have hsource : SameText samplePlatform.nfc (py "K") (py "K") := by decide
    have hrespelled : SameText samplePlatform.nfc (py "\u212A") (py "K") := by decide
    rw [authorized,List.filter_eq_self.mpr]
    · rfl
    · intro z hz
      rcases List.mem_cons.mp hz with rfl | hz
      · refine decide_eq_true ⟨hx ▸ hsource,?_⟩
        rw [System.afterAuthorize_authorizing_of_ne (show 0 ≠ 1 by decide),System.afterAuthorize_authorizing]
        rfl
      · cases List.mem_singleton.mp hz
        refine decide_eq_true ⟨hy ▸ hrespelled,?_⟩
        rw [System.afterAuthorize_authorizing]
        rfl

end AccountedRun
end ExecutionFinality
