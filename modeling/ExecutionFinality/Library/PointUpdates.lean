import Mathlib.Logic.Function.Basic

/-! What is known of an entry after an update at one point. -/
namespace ExecutionFinality
open Function (update)

variable {ι α β : Type} [DecidableEq ι] {f : ι → α} {k : ι} {v : α}

/-- A projection of an entry survives an update that does not change it. -/
theorem proj_update {g : α → β} (h : g v = g (f k)) (j : ι) : g (update f k v j) = g (f j) := by
  by_cases hj : j = k
  · subst hj
    rw [Function.update_self,h]
  · rw [Function.update_of_ne hj]

theorem proj_update_cases {g : α → β} {j : ι} {y : β} (h : g (update f k v j) = y) :
    (j = k ∧ g v = y) ∨ (j ≠ k ∧ g (f j) = y) := by
  by_cases hj : j = k
  · subst hj
    rw [Function.update_self] at h
    exact .inl ⟨rfl,h⟩
  · rw [Function.update_of_ne hj] at h
    exact .inr ⟨hj,h⟩

theorem update_cases {j : ι} {y : α} (h : update f k v j = y) : (j = k ∧ v = y) ∨ (j ≠ k ∧ f j = y) :=
  proj_update_cases (g := id) h

/-- An entry survives an update of another entry. -/
theorem update_kept {j : ι} {y : α} (hk : f k ≠ y) (h : f j = y) : update f k v j = y := by
  rw [Function.update_of_ne,h]
  rintro rfl
  exact hk h

end ExecutionFinality
