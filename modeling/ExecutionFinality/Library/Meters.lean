import Mathlib.Algebra.BigOperators.Group.List.Basic
import Mathlib.Algebra.Order.Group.Defs
import Mathlib.Algebra.Order.Sub.Defs
import Mathlib.Tactic.Abel

/-! A meter is charged one unit of its quota and a positive cost from its budget, as
long as both last. -/
namespace ExecutionFinality

@[ext] structure Meter (G : Type) where
  version : Int
  quota : Int
  budget : G

namespace Meter
variable {G : Type} [AddCommGroup G] [LinearOrder G]

def charge (m : Meter G) (cost : G) : Option (Meter G) :=
  if 0 < cost ∧ 1 ≤ m.quota ∧ cost ≤ m.budget then some ⟨m.version + 1,m.quota - 1,m.budget - cost⟩ else none

/-- The meter after a list of charges, when all of them are possible. -/
def charges : Meter G → List G → Option (Meter G)
  | m, [] => some m
  | m, cost :: costs => (m.charge cost).bind fun m' => m'.charges costs

variable {m m' : Meter G} {cost : G} {costs : List G}

theorem charge_eq_some : m.charge cost = some m' ↔ 0 < cost ∧ 1 ≤ m.quota ∧ cost ≤ m.budget ∧
    m' = ⟨m.version + 1,m.quota - 1,m.budget - cost⟩ := by
  unfold charge
  split
  · rename_i h
    simp only [Option.some.injEq,h,true_and,eq_comm]
  · rename_i h
    exact ⟨(nomatch ·),fun ⟨h1,h2,h3,_⟩ => absurd ⟨h1,h2,h3⟩ h⟩

theorem charges_concat : m.charges (costs ++ [cost]) = (m.charges costs).bind fun m' => m'.charge cost := by
  induction costs generalizing m with
  | nil => simp [charges]
  | cons c costs ih => simp only [List.cons_append,charges,Option.bind_assoc,ih]

/-- The charges made are what is gone from the quota and from the budget. -/
theorem charges_eq_some (h : m.charges costs = some m') :
    m' = ⟨m.version + costs.length,m.quota - costs.length,m.budget - costs.sum⟩ := by
  induction costs generalizing m with
  | nil =>
    cases h
    simp
  | cons c costs ih =>
    obtain ⟨m₁,h₁,h₂⟩ := Option.bind_eq_some_iff.mp h
    obtain ⟨_,_,_,rfl⟩ := charge_eq_some.mp h₁
    rw [ih h₂]
    ext
    · simp only [List.length_cons,Nat.cast_add,Nat.cast_one]
      omega
    · simp only [List.length_cons,Nat.cast_add,Nat.cast_one]
      omega
    · simp only [List.sum_cons]
      abel

theorem charges_pos (h : m.charges costs = some m') : ∀ c ∈ costs, 0 < c := by
  induction costs generalizing m with
  | nil => rintro _ ⟨⟩
  | cons c costs ih =>
    obtain ⟨m₁,h₁,h₂⟩ := Option.bind_eq_some_iff.mp h
    exact List.forall_mem_cons.mpr ⟨(charge_eq_some.mp h₁).1,ih h₂⟩

/-- No charge overdraws. -/
theorem charges_nonneg [IsOrderedAddMonoid G] (h : m.charges costs = some m') (hq : 0 ≤ m.quota)
    (hb : 0 ≤ m.budget) : 0 ≤ m'.quota ∧ 0 ≤ m'.budget := by
  induction costs generalizing m with
  | nil =>
    cases h
    exact ⟨hq,hb⟩
  | cons c costs ih =>
    obtain ⟨m₁,h₁,h₂⟩ := Option.bind_eq_some_iff.mp h
    obtain ⟨_,hquota,hbudget,rfl⟩ := charge_eq_some.mp h₁
    exact ih h₂ (Int.sub_nonneg.mpr hquota) (sub_nonneg.mpr hbudget)

end Meter
end ExecutionFinality
