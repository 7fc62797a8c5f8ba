import Mathlib.Tactic.Common

/-! A store that one connection at a time may write: what it writes is seen by nobody else
until it commits, and is gone when it is discarded first. -/
namespace ExecutionFinality

/-- `writer` is the connection between its begin and its end, with what it sees. -/
structure SingleWriter (κ σ : Type) where
  committed : σ
  writer : Option (κ × σ)

namespace SingleWriter
variable {κ σ : Type} [DecidableEq κ]

/-- What the connection sees, while it is the writer. -/
def view (s : SingleWriter κ σ) (k : κ) : Option σ := s.writer.bind fun w => if w.1 = k then some w.2 else none

def begin (s : SingleWriter κ σ) (k : κ) : Option (SingleWriter κ σ) :=
  if s.writer.isNone then some { s with writer := some (k,s.committed) } else none

def write (s : SingleWriter κ σ) (k : κ) (v : σ) : SingleWriter κ σ := { s with writer := some (k,v) }

def commit (s : SingleWriter κ σ) (k : κ) : Option (SingleWriter κ σ) := (s.view k).map fun v => ⟨v,none⟩

/-- A rollback, the end of the connection or its death. -/
def discard (s : SingleWriter κ σ) (k : κ) : SingleWriter κ σ :=
  if (s.view k).isSome then { s with writer := none } else s

variable {s s' : SingleWriter κ σ} {j k : κ} {v w : σ}

@[simp] theorem discard_committed : (s.discard k).committed = s.committed := by
  unfold discard
  split <;> rfl

theorem view_eq_some : s.view k = some v ↔ s.writer = some (k,v) := by
  unfold view
  cases hw : s.writer with
  | none => simp
  | some w =>
    obtain ⟨i,u⟩ := w
    simp only [Option.bind_some,Option.some.injEq,Prod.mk.injEq]
    split
    · rename_i hi
      simp [hi]
    · rename_i hi
      simp [hi]

/-- There is one writer. -/
theorem view_of_ne (h : s.view k = some v) (hj : j ≠ k) : s.view j = none := by
  rw [view,view_eq_some.mp h,Option.bind_some,if_neg (Ne.symm hj)]

omit [DecidableEq κ] in
theorem begin_eq_some : s.begin k = some s' ↔ s.writer = none ∧ s' = ⟨s.committed,some (k,s.committed)⟩ := by
  unfold begin
  split
  · rename_i h
    simp [Option.isNone_iff_eq_none.mp h,eq_comm]
  · rename_i h
    simp only [Option.isNone_iff_eq_none] at h
    simp [h]

theorem commit_eq_some : s.commit k = some s' ↔ ∃ v, s.view k = some v ∧ s' = ⟨v,none⟩ := by
  simp only [commit,Option.map_eq_some_iff,eq_comm (b := s')]

/-- A write and its end, from begin to commit or to discard. -/
theorem begun_commit : ({ s with writer := some (k,v) } : SingleWriter κ σ).commit k = some ⟨v,none⟩ :=
  commit_eq_some.mpr ⟨v,view_eq_some.mpr rfl,rfl⟩

theorem begun_discard : ({ s with writer := some (k,v) } : SingleWriter κ σ).discard k = { s with writer := none } :=
  if_pos (by rw [view_eq_some.mpr rfl]; rfl)

theorem discard_of_none (h : s.writer = none) : s.discard k = s :=
  if_neg (by simp [view,h])

theorem write_view : (s.write k v).view k = some v := view_eq_some.mpr rfl

theorem write_view_of_ne (h : s.view k = some w) (hj : j ≠ k) : (s.write k v).view j = s.view j := by
  rw [view_of_ne h hj,view_of_ne write_view hj]

theorem discard_view_of_ne (hj : j ≠ k) : (s.discard k).view j = s.view j := by
  unfold discard
  split
  · rename_i h
    obtain ⟨v,hv⟩ := Option.isSome_iff_exists.mp h
    rw [view_of_ne hv hj]
    rfl
  · rfl

end SingleWriter
end ExecutionFinality
