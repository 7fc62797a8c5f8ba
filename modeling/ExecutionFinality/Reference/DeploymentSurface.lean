import ExecutionFinality.Library.Repeats
import ExecutionFinality.Reference.PythonValues
import Mathlib.Data.List.DropRight

/-! `surface.py`: the self-audit of a deployment for effect paths around the sinks. -/
namespace ExecutionFinality
open Repeats

/-- `str.isspace` of one character -/
def isWhitespace (c : CodePoint) : Bool :=
  9 ≤ c.val ∧ c.val ≤ 13 ∨ 28 ≤ c.val ∧ c.val ≤ 32 ∨ c.val = 0x85 ∨ c.val = 0xA0 ∨ c.val = 0x1680 ∨
    0x2000 ≤ c.val ∧ c.val ≤ 0x200A ∨ c.val = 0x2028 ∨ c.val = 0x2029 ∨ c.val = 0x202F ∨ c.val = 0x205F ∨
    c.val = 0x3000

/-- `str.strip` -/
def PyStr.strip (s : PyStr) : PyStr := (s.dropWhile isWhitespace).rdropWhile isWhitespace

structure EffectSurface where
  name : PyStr
  channel : PyStr
  externallyEffective : Bool
  sinkMediated : Bool
  enforcementBoundary : PyStr
  privileged : Bool

structure SurfaceFinding where
  severity : PyStr
  surface : PyStr
  reason : PyStr
  deriving DecidableEq

structure DeploymentManifest where
  surfaces : List EffectSurface

/-- The key under which a surface is `seen` -/
def EffectSurface.key (s : EffectSurface) : PyStr × PyStr := (s.name,s.channel)

/-- What the loop body appends for a key that was seen before -/
def duplicateFinding (key : PyStr × PyStr) : SurfaceFinding :=
  ⟨py "MEDIUM",key.1,py "duplicate_surface_definition"⟩

namespace EffectSurface

/-- What the loop body appends after `continue` would have left it -/
def boundaryFindings (s : EffectSurface) : List SurfaceFinding :=
  (if !s.sinkMediated then [⟨py "CRITICAL",s.name,py "unguarded_external_effect_path"⟩] else []) ++
    (if !s.privileged then [⟨py "HIGH",s.name,py "sink_boundary_not_privileged"⟩] else []) ++
    if s.enforcementBoundary.strip = [] then [⟨py "HIGH",s.name,py "missing_enforcement_boundary"⟩] else []

/-- The findings of one surface, but for a duplicate -/
def findings (s : EffectSurface) : List SurfaceFinding :=
  if !s.externallyEffective then [] else s.boundaryFindings

/-- The surface is mediated by a sink at a privileged boundary that has a name. -/
structure Guarded (s : EffectSurface) : Prop where
  sinkMediated : s.sinkMediated = true
  privileged : s.privileged = true
  boundary : ∃ c ∈ s.enforcementBoundary, isWhitespace c = false

end EffectSurface

namespace DeploymentManifest

/-- The loop of `audit`; `seen` holds the keys of the surfaces before. -/
def auditFrom (seen : Finset (PyStr × PyStr)) : List EffectSurface → List SurfaceFinding
  | [] => []
  | s :: surfaces =>
    (if s.key ∈ seen then [duplicateFinding s.key] else []) ++ s.findings ++ auditFrom (insert s.key seen) surfaces

def audit (m : DeploymentManifest) : List SurfaceFinding := auditFrom ∅ m.surfaces

def assertComplete (m : DeploymentManifest) : Except Exn Unit :=
  let critical := m.audit.filter fun f => f.severity = py "CRITICAL" ∨ f.severity = py "HIGH"
  failIf (critical ≠ []) (.runtimeError (py "deployment finality coverage incomplete: " ++
    (py "; ").intercalate (critical.map fun f => f.surface ++ py ":" ++ f.reason)))

/-- The channels listed with a name -/
def channels (m : DeploymentManifest) (name : PyStr) : Finset PyStr :=
  ((m.surfaces.filter fun s => s.name = name).map (·.channel)).toFinset

/-- How often a name and a channel are listed together -/
def occurrences (m : DeploymentManifest) (name channel : PyStr) : Nat :=
  m.surfaces.countP fun s => s.name = name ∧ s.channel = channel

/-- The duplicate findings that carry a name -/
def duplicates (m : DeploymentManifest) (name : PyStr) : List SurfaceFinding :=
  m.audit.filter fun f => f.reason = py "duplicate_surface_definition" ∧ f.surface = name

end DeploymentManifest

/-- A string is blank when nothing but white space is in it. -/
theorem PyStr.strip_eq_nil {s : PyStr} : s.strip = [] ↔ ∀ c ∈ s, isWhitespace c = true := by
  rw [PyStr.strip,List.rdropWhile_eq_nil_iff]
  constructor
  · intro h c hc
    by_contra hb
    have hmem : c ∈ s.dropWhile isWhitespace := by
      rw [← List.takeWhile_append_dropWhile (p := isWhitespace) (l := s)] at hc
      rcases List.mem_append.mp hc with hc | hc
      · exact absurd (List.mem_takeWhile_imp hc) hb
      · exact hc
    exact hb (h c hmem)
  · exact fun h c hc => h c (List.dropWhile_subset _ hc)

namespace EffectSurface
variable {s : EffectSurface}

theorem boundaryFindings_eq_nil : s.boundaryFindings = [] ↔ s.Guarded := by
  simp only [boundaryFindings,List.append_eq_nil_iff,PyStr.strip_eq_nil]
  constructor
  · rintro ⟨⟨hm,hp⟩,hb⟩
    exact ⟨by simpa using hm,by simpa using hp,by simpa using hb⟩
  · rintro ⟨hm,hp,c,hc,hb⟩
    have hn : ¬ ∀ c ∈ s.enforcementBoundary, isWhitespace c = true := by
      intro h
      rw [h c hc] at hb
      cases hb
    simp [hm,hp,hn]

/-- Every finding but a duplicate is severe enough to fail the deployment. -/
theorem severity_of_findings {f : SurfaceFinding} (h : f ∈ s.findings) :
    f.severity = py "CRITICAL" ∨ f.severity = py "HIGH" := by
  unfold findings boundaryFindings at h
  split at h
  · cases h
  · simp only [List.mem_append] at h
    rcases h with (h | h) | h
    all_goals
      split at h
      · cases List.mem_singleton.mp h
        simp
      · cases h

theorem reason_of_findings {f : SurfaceFinding} (h : f ∈ s.findings) :
    f.reason ≠ py "duplicate_surface_definition" := by
  have hreason : ∀ r ∈ ["unguarded_external_effect_path","sink_boundary_not_privileged","missing_enforcement_boundary"],
      py r ≠ py "duplicate_surface_definition" := by decide
  unfold findings boundaryFindings at h
  split at h
  · cases h
  · simp only [List.mem_append] at h
    rcases h with (h | h) | h
    all_goals
      split at h
      · cases List.mem_singleton.mp h
        exact hreason _ (by simp)
      · cases h

end EffectSurface

namespace DeploymentManifest
variable {m m' : DeploymentManifest}

/-- The findings are those of the surfaces one by one and one for every repeated key. -/
theorem auditFrom_perm (seen : Finset (PyStr × PyStr)) (surfaces : List EffectSurface) :
    (auditFrom seen surfaces).Perm ((repeats seen (surfaces.map (·.key))).map duplicateFinding ++
      surfaces.flatMap (·.findings)) := by
  induction surfaces generalizing seen with
  | nil => exact .refl _
  | cons s surfaces ih =>
    have hrest := ih (insert s.key seen)
    simp only [auditFrom,List.map_cons,List.flatMap_cons]
    unfold repeats
    by_cases hs : s.key ∈ seen
    · rw [if_pos hs,if_pos hs]
      rw [Finset.insert_eq_of_mem hs] at hrest ⊢
      rw [List.map_cons,List.cons_append,List.cons_append,List.nil_append,List.cons_append]
      refine .cons _ ((hrest.append_left _).trans ?_)
      exact List.perm_append_comm_assoc ..
    · rw [if_neg hs,if_neg hs,List.nil_append]
      exact (hrest.append_left _).trans (List.perm_append_comm_assoc ..)

theorem audit_perm (m : DeploymentManifest) :
    m.audit.Perm ((repeats ∅ (m.surfaces.map (·.key))).map duplicateFinding ++ m.surfaces.flatMap (·.findings)) :=
  auditFrom_perm ∅ m.surfaces

/-- A listing in another order has the same findings, each as often. -/
theorem audit_perm_of_perm (h : m.surfaces.Perm m'.surfaces) : m.audit.Perm m'.audit := by
  have hrepeats := (repeats_perm ∅ (h.map (·.key))).map duplicateFinding
  exact m.audit_perm.trans ((hrepeats.append (h.flatMap_right _)).trans m'.audit_perm.symm)

theorem assertComplete_eq_ok : m.assertComplete = .ok () ↔
    ∀ s ∈ m.surfaces, s.externallyEffective = true → s.Guarded := by
  have duplicate (key : PyStr × PyStr) : ¬ ((duplicateFinding key).severity = py "CRITICAL" ∨
      (duplicateFinding key).severity = py "HIGH") := by
    change ¬ (py "MEDIUM" = py "CRITICAL" ∨ py "MEDIUM" = py "HIGH")
    decide
  simp only [assertComplete,CheckChains.failIf_eq_ok,not_not,List.filter_eq_nil_iff,m.audit_perm.mem_iff,
    List.mem_append,List.mem_map,List.mem_flatMap,decide_eq_true_eq]
  constructor
  · intro h s hs he
    rw [← EffectSurface.boundaryFindings_eq_nil,List.eq_nil_iff_forall_not_mem]
    intro f hf
    have hmem : f ∈ s.findings := by simpa [EffectSurface.findings,he] using hf
    exact h f (.inr ⟨s,hs,hmem⟩) (EffectSurface.severity_of_findings hmem)
  · rintro h f (⟨key,_,rfl⟩ | ⟨s,hs,hf⟩)
    · exact duplicate key
    · unfold EffectSurface.findings at hf
      split at hf
      · cases hf
      · rename_i he
        rw [EffectSurface.boundaryFindings_eq_nil.mpr (h s hs (by simpa using he))] at hf
        cases hf

theorem length_duplicates (name : PyStr) :
    (m.duplicates name).length = ∑ channel ∈ m.channels name, (m.occurrences name channel - 1) := by
  have hkeys (channel : PyStr) : (m.surfaces.map (·.key)).count (name,channel) = m.occurrences name channel := by
    rw [occurrences,List.count_eq_countP,List.countP_map]
    apply List.countP_congr
    intro s _
    simp [EffectSurface.key]
  have hlisted (channel : PyStr) (h : (name,channel) ∈ repeats ∅ (m.surfaces.map (·.key))) :
      channel ∈ m.channels name := by
    rw [← List.count_pos_iff,count_repeats] at h
    have hcount : 0 < (m.surfaces.map (·.key)).count (name,channel) := by omega
    obtain ⟨s,hs,hkey⟩ := List.mem_map.mp (List.count_pos_iff.mp hcount)
    cases hkey
    simp only [channels,List.mem_toFinset,List.mem_map,List.mem_filter]
    exact ⟨s,⟨hs,by simp⟩,rfl⟩
  have hfindings : (m.surfaces.flatMap (·.findings)).countP (fun f => f.reason = py "duplicate_surface_definition" ∧
      f.surface = name) = 0 := by
    rw [List.countP_eq_zero]
    intro f hf
    obtain ⟨s,_,hf⟩ := List.mem_flatMap.mp hf
    simp [EffectSurface.reason_of_findings hf]
  rw [duplicates,← List.countP_eq_length_filter,m.audit_perm.countP_eq,List.countP_append,hfindings,
    List.countP_map,Nat.add_zero]
  calc
    _ = (repeats ∅ (m.surfaces.map (·.key))).countP (fun key => key.1 = name) := by
      apply List.countP_congr
      intro key _
      simp only [Function.comp_apply,duplicateFinding,true_and]
    _ = _ := by
      rw [countP_fst _ name hlisted]
      exact Finset.sum_congr rfl fun channel _ => by rw [count_repeats,hkeys]; simp

/-- The audit passes exactly when every effective surface is guarded, and it finds the same
in every order of the list, duplicates counted. -/
theorem audit_complete (m : DeploymentManifest) :
    (m.assertComplete = .ok () ↔ ∀ s ∈ m.surfaces, s.externallyEffective = true → s.Guarded) ∧
    (∀ m' : DeploymentManifest, m.surfaces.Perm m'.surfaces → m.audit.Perm m'.audit) ∧
    ∀ name, (m.duplicates name).length = ∑ channel ∈ m.channels name, (m.occurrences name channel - 1) :=
  ⟨assertComplete_eq_ok,fun _ => audit_perm_of_perm,fun _ => length_duplicates _⟩

/-- A guarded surface listed twice and a surface without effects -/
def sample : DeploymentManifest where
  surfaces := [⟨py "egress",py "network",true,true,py "host",true⟩,⟨py "log",py "storage",false,false,py " ",false⟩,
    ⟨py "egress",py "network",true,true,py "host",true⟩]

theorem audit_complete_sample : sample.assertComplete = .ok () ∧ (sample.duplicates (py "egress")).length =
    ∑ channel ∈ sample.channels (py "egress"), (sample.occurrences (py "egress") channel - 1) := by
  obtain ⟨hpasses,_,hcount⟩ := audit_complete sample
  refine ⟨hpasses.mpr ?_,hcount _⟩
  have guarded : EffectSurface.Guarded ⟨py "egress",py "network",true,true,py "host",true⟩ :=
    ⟨rfl,rfl,_,List.mem_cons_self ..,by decide⟩
  intro s hs he
  simp only [sample,List.mem_cons,List.not_mem_nil,or_false] at hs
  rcases hs with rfl | rfl | rfl
  · exact guarded
  · cases he
  · exact guarded

end DeploymentManifest
end ExecutionFinality
