import Mathlib.Algebra.BigOperators.Group.Finset.Piecewise
import Mathlib.Data.List.Perm.Basic
import Mathlib.Tactic.Common

/-! The entries of a list that a scan with a growing set has seen before. -/
namespace ExecutionFinality.Repeats
variable {α β : Type} [DecidableEq α] [BEq α] [LawfulBEq α] [BEq β] [LawfulBEq β]

def repeats (seen : Finset α) : List α → List α
  | [] => []
  | x :: xs => if x ∈ seen then x :: repeats seen xs else repeats (insert x seen) xs

/-- Every occurrence of an entry but its first is a repeat. -/
theorem count_repeats (seen : Finset α) (xs : List α) (a : α) :
    (repeats seen xs).count a = xs.count a - if a ∈ seen then 0 else 1 := by
  induction xs generalizing seen with
  | nil => simp [repeats]
  | cons x xs ih =>
    unfold repeats
    by_cases hx : x ∈ seen
    · rw [if_pos hx,List.count_cons,List.count_cons,ih]
      by_cases ha : x = a
      · subst ha
        simp [hx]
      · simp [ha]
    · rw [if_neg hx,List.count_cons,ih]
      by_cases ha : x = a
      · subst ha
        simp [hx]
      · simp [ha,Ne.symm ha]

/-- Which entries repeat, and how often, does not depend on their order. -/
theorem repeats_perm (seen : Finset α) {xs ys : List α} (h : xs.Perm ys) :
    (repeats seen xs).Perm (repeats seen ys) := by
  rw [List.perm_iff_count]
  intro a
  rw [count_repeats,count_repeats,h.count_eq]

/-- The occurrences of the pairs with one first component, summed over the second ones. -/
theorem countP_fst [DecidableEq β] (ps : List (α × β)) (a : α) {bs : Finset β} (h : ∀ b, (a,b) ∈ ps → b ∈ bs) :
    ps.countP (fun p => p.1 = a) = ∑ b ∈ bs, ps.count (a,b) := by
  induction ps with
  | nil => simp
  | cons p ps ih =>
    obtain ⟨c,d⟩ := p
    have hrest := ih fun b hb => h b (List.mem_cons_of_mem _ hb)
    simp only [List.countP_cons,List.count_cons,Finset.sum_add_distrib,hrest]
    congr 1
    by_cases hc : c = a
    · subst hc
      have hd : d ∈ bs := h d (List.mem_cons_self ..)
      simp [hd]
    · simp [hc]

end ExecutionFinality.Repeats
