import Mathlib.Tactic.Common

/-! Transition systems: reachable states, invariants of a run, refinement and simulation backwards. -/
namespace ExecutionFinality

structure Machine (σ α : Type) where
  Init : σ → Prop
  Step : σ → α → σ → Prop

namespace Machine
variable {σ τ α β : Type} {M : Machine σ α} {N : Machine τ β} {allowed : σ → α → Prop} {I : σ → Prop} {s : σ}

/-- The states of the runs whose every step is allowed in the state where it is taken. -/
inductive Reaches (M : Machine σ α) (allowed : σ → α → Prop) : σ → Prop
  | init {s : σ} (h : M.Init s) : Reaches M allowed s
  | step {s s' : σ} {a : α} (h : Reaches M allowed s) (ha : allowed s a) (hs : M.Step s a s') :
    Reaches M allowed s'

theorem Reaches.mono {allowed' : σ → α → Prop} (hle : ∀ s a, allowed s a → allowed' s a)
    (h : Reaches M allowed s) : Reaches M allowed' s := by
  induction h with
  | init h => exact .init h
  | step _ ha hs ih => exact .step ih (hle _ _ ha) hs

/-- What holds at the start and is kept by every allowed step from a reachable state. -/
structure Preserved (M : Machine σ α) (allowed : σ → α → Prop) (I : σ → Prop) : Prop where
  init : ∀ s, M.Init s → I s
  step : ∀ s a s', Reaches M allowed s → I s → allowed s a → M.Step s a s' → I s'

theorem Reaches.invariant (hI : Preserved M allowed I) (h : Reaches M allowed s) : I s := by
  induction h with
  | init h => exact hI.init _ h
  | step h ha hs ih => exact hI.step _ _ _ h ih ha hs

/-- The same steps from a given state. -/
def startingAt (M : Machine σ α) (s : σ) : Machine σ α := ⟨(· = s),M.Step⟩

theorem Reaches.append {allowed' : σ → α → Prop} {s' : σ} (h : Reaches M allowed s)
    (h' : Reaches (M.startingAt s) allowed' s') : Reaches M (fun _ _ => True) s' := by
  induction h' with
  | init h' => exact h' ▸ h.mono fun _ _ _ => trivial
  | step _ _ hs ih => exact ih.step trivial hs

theorem reaches_of_step {s' : σ} {a : α} (ha : allowed s a) (hs : M.Step s a s') :
    Reaches (M.startingAt s) allowed s' := .step (.init rfl) ha hs

/-- A run: the states it has left, with the actions it took in them, and the state it is in. -/
inductive Trace (M : Machine σ α) : List (σ × α) → σ → Prop
  | init {s : σ} (h : M.Init s) : Trace M [] s
  | step {t : List (σ × α)} {s s' : σ} {a : α} (h : Trace M t s) (hs : M.Step s a s') : Trace M (t ++ [(s,a)]) s'

/-- The states of a run in their order -/
def states (t : List (σ × α)) (s : σ) : List σ := t.map Prod.fst ++ [s]

variable {t : List (σ × α)}

theorem Trace.reaches (h : Trace M t s) (ha : ∀ x ∈ t, allowed x.1 x.2) : Reaches M allowed s := by
  induction h with
  | init h => exact .init h
  | @step t s s' a _ hs ih =>
    have hlast : allowed s a := ha (s,a) (by simp)
    exact (ih fun x hx => ha x (List.mem_append_left _ hx)).step hlast hs

/-- A relation that allowed steps keep, and no others, orders the states of the allowed runs. -/
theorem Trace.pairwise_iff {R : σ → σ → Prop} (htrans : ∀ a b c, R a b → R b c → R a c)
    (hstep : ∀ s a s', M.Step s a s' → (R s s' ↔ allowed s a)) (h : Trace M t s) :
    (states t s).Pairwise R ↔ ∀ x ∈ t, allowed x.1 x.2 := by
  induction h with
  | init => simp [states]
  | @step t s s' a _ hs ih =>
    have hlast : (states t s).Pairwise R → R s s' → ∀ x ∈ states t s, R x s' := by
      intro hp hr x hx
      rcases List.mem_append.mp hx with hx | hx
      · exact htrans x s s' ((List.pairwise_append.mp hp).2.2 x hx s (by simp)) hr
      · cases List.mem_singleton.mp hx
        exact hr
    have hstates : states (t ++ [(s,a)]) s' = states t s ++ [s'] := by simp [states]
    rw [hstates,List.pairwise_append,List.forall_mem_append,List.forall_mem_singleton,← ih,← hstep s a s' hs]
    constructor
    · rintro ⟨hp,-,hall⟩
      exact ⟨hp,hall s (by simp [states]) s' (by simp)⟩
    · rintro ⟨hp,hr⟩
      refine ⟨hp,List.pairwise_singleton ..,fun x hx y hy => ?_⟩
      cases List.mem_singleton.mp hy
      exact hlast hp hr x hx

/-- Every allowed step of `M` is, through `abs`, one step of `N` or none. -/
structure Refines (M : Machine σ α) (allowed : σ → α → Prop) (N : Machine τ β) (abs : σ → τ) : Prop where
  init : ∀ s, M.Init s → N.Init (abs s)
  step : ∀ s a s', Reaches M allowed s → allowed s a → M.Step s a s' →
    abs s' = abs s ∨ ∃ b, N.Step (abs s) b (abs s')

theorem Reaches.refine {abs : σ → τ} (hr : Refines M allowed N abs) (h : Reaches M allowed s) :
    Reaches N (fun _ _ => True) (abs s) := by
  induction h with
  | init h => exact .init (hr.init _ h)
  | @step s s' a h ha hs ih =>
    rcases hr.step _ _ _ h ha hs with he | ⟨b,hb⟩
    · exact he ▸ ih
    · exact .step ih trivial hb

theorem Reaches.trans {s' : σ} (h : Reaches M allowed s) (h' : Reaches (M.startingAt s) allowed s') :
    Reaches M allowed s' := by
  induction h' with
  | init h' => exact h' ▸ h
  | step _ ha hs ih => exact ih.step ha hs

/-- Whatever is related to the end of an allowed step of `M` is reached by allowed steps of `N` from
something related to its start, so what `N` did before may still depend on what `M` does next. -/
structure BackwardSimulates (M : Machine σ α) (allowed : σ → α → Prop) (N : Machine τ β) (allowed' : τ → β → Prop)
    (R : σ → τ → Prop) : Prop where
  init : ∀ s t, M.Init s → R s t → N.Init t
  step : ∀ s a s' t', Reaches M allowed s → allowed s a → M.Step s a s' → R s' t' →
    ∃ t, R s t ∧ Reaches (N.startingAt t) allowed' t'

theorem Reaches.simulate {allowed' : τ → β → Prop} {R : σ → τ → Prop} {u : τ}
    (hr : BackwardSimulates M allowed N allowed' R) (h : Reaches M allowed s) (hu : R s u) : Reaches N allowed' u := by
  induction h generalizing u with
  | init h => exact .init (hr.init _ _ h hu)
  | step h ha hs ih =>
    obtain ⟨t,ht,hsteps⟩ := hr.step _ _ _ _ h ha hs hu
    exact (ih ht).trans hsteps

end Machine
end ExecutionFinality
