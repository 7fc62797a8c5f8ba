import Mathlib.Data.List.Forall2
import Mathlib.Tactic.Common

/-! Chains of checks that stop at the first failure. -/
namespace ExecutionFinality
variable {ε α β : Type}

/-- `if bad: raise e` -/
def failIf (bad : Prop) [Decidable bad] (e : ε) : Except ε Unit :=
  if bad then .error e else .ok ()

namespace CheckChains

@[simp] theorem bind_eq_ok {x : Except ε α} {f : α → Except ε β} {b : β} :
    (x >>= f) = .ok b ↔ ∃ a, x = .ok a ∧ f a = .ok b := by
  cases x with
  | error e => exact ⟨(nomatch ·),fun ⟨_,h,_⟩ => (nomatch h)⟩
  | ok a => exact ⟨fun h => ⟨a,rfl,h⟩,fun ⟨_,h,h'⟩ => by cases h; exact h'⟩

@[simp] theorem failIf_eq_ok {bad : Prop} [Decidable bad] {e : ε} {u : Unit} :
    failIf bad e = .ok u ↔ ¬ bad := by
  by_cases h : bad <;> simp [failIf,h]

@[simp] theorem pure_eq_ok {a b : α} : (pure a : Except ε α) = .ok b ↔ a = b :=
  ⟨Except.ok.inj,congrArg _⟩

theorem ok_bind (a : α) (f : α → Except ε β) : (Except.ok a >>= f) = f a := rfl

theorem error_bind (e : ε) (f : α → Except ε β) : (Except.error e >>= f) = .error e := rfl

/-- A traversal succeeds when it does at every element. -/
theorem mapM_eq_ok {f : α → Except ε β} {xs : List α} {ys : List β} :
    xs.mapM f = .ok ys ↔ List.Forall₂ (fun x y => f x = .ok y) xs ys := by
  induction xs generalizing ys with
  | nil =>
    simp only [List.mapM_nil,pure_eq_ok,List.forall₂_nil_left_iff]
    exact eq_comm
  | cons x xs ih =>
    simp only [List.mapM_cons,bind_eq_ok,pure_eq_ok,ih,List.forall₂_cons_left_iff]
    constructor
    · rintro ⟨y,hy,ys,hys,rfl⟩
      exact ⟨y,ys,hy,hys,rfl⟩
    · rintro ⟨y,ys,hy,hys,rfl⟩
      exact ⟨y,hy,ys,hys,rfl⟩

theorem mapM_eq_some {f : α → Option β} {xs : List α} {ys : List β} :
    xs.mapM f = some ys ↔ List.Forall₂ (fun x y => f x = some y) xs ys := by
  induction xs generalizing ys with
  | nil =>
    simp only [List.mapM_nil,Option.pure_def,Option.some.injEq,List.forall₂_nil_left_iff]
    exact eq_comm
  | cons x xs ih =>
    simp only [List.mapM_cons,Option.bind_eq_bind,Option.pure_def,Option.bind_eq_some_iff,Option.some.injEq,ih,
      List.forall₂_cons_left_iff]
    constructor
    · rintro ⟨y,hy,ys,hys,rfl⟩
      exact ⟨y,ys,hy,hys,rfl⟩
    · rintro ⟨y,ys,hy,hys,rfl⟩
      exact ⟨y,hy,ys,hys,rfl⟩

theorem toOption_eq_some {x : Except ε α} {a : α} : x.toOption = some a ↔ x = .ok a := by
  cases x <;> simp [Except.toOption]

/-! Loops over checks -/

/-- Check the elements in turn and count them. -/
def counted (check : α → Except ε Unit) : List α → Nat → Except ε Nat
  | [],n => .ok n
  | x :: xs,n => do
    check x
    counted check xs (n + 1)

theorem counted_eq_ok {check : α → Except ε Unit} {xs : List α} {m n : Nat} :
    counted check xs n = .ok m ↔ (∀ x ∈ xs, check x = .ok ()) ∧ n + xs.length = m := by
  induction xs generalizing n with
  | nil => simp [counted]
  | cons x xs ih =>
    simp only [counted,bind_eq_ok,ih,List.forall_mem_cons,List.length_cons,and_assoc]
    have hlen : n + 1 + xs.length = n + (xs.length + 1) := by omega
    rw [hlen]
    exact ⟨fun ⟨_,h⟩ => h,fun h => ⟨(),h⟩⟩

theorem forM_eq_some {check : α → Option Unit} {xs : List α} :
    xs.forM check = some () ↔ ∀ x ∈ xs, check x = some () := by
  induction xs with
  | nil => simp
  | cons x xs ih =>
    change (check x).bind (fun _ => xs.forM check) = some () ↔ _
    rw [List.forall_mem_cons,← ih,Option.bind_eq_some_iff]
    exact ⟨fun ⟨_,h⟩ => h,fun h => ⟨(),h⟩⟩

/-! What a computation can raise. -/

variable {P : ε → Prop} {x : Except ε α}

/-- Everything that the computation can raise satisfies `P`. -/
def RaisesOnly (P : ε → Prop) (x : Except ε α) : Prop := ∀ e, x = .error e → P e

@[simp] theorem raisesOnly_ok {a : α} : RaisesOnly P (.ok a) := fun _ h => (nomatch h)

@[simp] theorem raisesOnly_pure {a : α} : RaisesOnly P (pure a) := raisesOnly_ok

@[simp] theorem raisesOnly_error {e : ε} : RaisesOnly P (.error e : Except ε α) ↔ P e :=
  ⟨fun h => h e rfl,fun h _ he => Except.error.inj he ▸ h⟩

/-- A chain raises what its first part raises, and where that returns, what the rest does. -/
@[simp] theorem raisesOnly_bind {f : α → Except ε β} :
    RaisesOnly P (x >>= f) ↔ RaisesOnly P x ∧ ∀ a, x = .ok a → RaisesOnly P (f a) := by
  cases x with
  | error e =>
    rw [error_bind,raisesOnly_error,raisesOnly_error]
    exact ⟨fun h => ⟨h,fun _ h => (nomatch h)⟩,And.left⟩
  | ok a =>
    rw [ok_bind]
    exact ⟨fun h => ⟨raisesOnly_ok,fun _ ha => Except.ok.inj ha ▸ h⟩,fun h => h.2 a rfl⟩

@[simp] theorem raisesOnly_map {f : α → β} : RaisesOnly P (f <$> x) ↔ RaisesOnly P x := by
  cases x with
  | error e => exact raisesOnly_error.trans raisesOnly_error.symm
  | ok a => exact iff_of_true raisesOnly_ok raisesOnly_ok

@[simp] theorem raisesOnly_failIf {bad : Prop} [Decidable bad] {e : ε} :
    RaisesOnly P (failIf bad e) ↔ (bad → P e) := by
  by_cases h : bad <;> simp [failIf,h]

/-- A computation that can raise nothing in `P` raises only what is in `P` by returning. -/
theorem raisesOnly_iff_returns (h : RaisesOnly (¬ P ·) x) : RaisesOnly P x ↔ ∃ a, x = .ok a := by
  cases x with
  | error e => exact iff_of_false (fun h' => h e rfl (h' e rfl)) fun ⟨_,ha⟩ => nomatch ha
  | ok a => exact iff_of_true raisesOnly_ok ⟨a,rfl⟩

end CheckChains
end ExecutionFinality
