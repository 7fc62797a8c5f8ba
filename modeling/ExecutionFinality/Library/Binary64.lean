import Mathlib.Data.Int.Log
import Mathlib.Data.Rat.Floor
import Mathlib.Tactic.Linarith
import Mathlib.Tactic.Positivity
import Mathlib.Tactic.Ring

/-! Numbers in binary64, as the rationals they stand for: addition rounds to nearest,
ties to even. The two zeros are one value. -/
namespace ExecutionFinality

inductive Binary64 where
  | nan
  | infinity (negative : Bool)
  | finite (q : ℚ)
  deriving DecidableEq

namespace Binary64

/-- The nearest integer, the even one of two. -/
def roundHalfEven (x : ℚ) : ℤ :=
  if x - ⌊x⌋ < 1 / 2 then ⌊x⌋
  else if 1 / 2 < x - ⌊x⌋ then ⌊x⌋ + 1
  else if ⌊x⌋ % 2 = 0 then ⌊x⌋ else ⌊x⌋ + 1

/-- The exponent of the last of the 53 digits. -/
def exponent (q : ℚ) : ℤ := max (Int.log 2 |q| - 52) (-1074)

def round (q : ℚ) : Binary64 :=
  let r : ℚ := roundHalfEven (q / 2^exponent q) * (2 : ℚ)^exponent q
  if |r| < 2^1024 then .finite r else .infinity (q < 0)

def neg : Binary64 → Binary64
  | .nan => .nan
  | .infinity s => .infinity (!s)
  | .finite q => .finite (-q)

def add : Binary64 → Binary64 → Binary64
  | .nan, _ | _, .nan => .nan
  | .infinity s, .infinity t => if s = t then .infinity s else .nan
  | .infinity s, .finite _ | .finite _, .infinity s => .infinity s
  | .finite p, .finite q => round (p + q)

def sub (x y : Binary64) : Binary64 := add x (neg y)

def lt : Binary64 → Binary64 → Bool
  | .nan, _ | _, .nan => false
  | .infinity s, .infinity t => s && !t
  | .infinity s, .finite _ => s
  | .finite _, .infinity t => !t
  | .finite p, .finite q => p < q

/-- Numerical equality; `nan` equals nothing. -/
def eq (x y : Binary64) : Bool := x ≠ .nan ∧ x = y

theorem le_roundHalfEven {k : ℤ} {x : ℚ} (h : k ≤ x) : k ≤ roundHalfEven x := by
  have hf : k ≤ ⌊x⌋ := Int.le_floor.mpr h
  unfold roundHalfEven
  split_ifs <;> omega

theorem roundHalfEven_le {k : ℤ} {x : ℚ} (h : x ≤ k) : roundHalfEven x ≤ k := by
  have hf : ⌊x⌋ ≤ k := by exact_mod_cast (Int.floor_le x).trans h
  rcases hf.lt_or_eq with hlt | rfl
  · unfold roundHalfEven
    split_ifs <;> omega
  · have hx : x - ⌊x⌋ < 1 / 2 := by linarith
    rw [roundHalfEven,if_pos hx]

theorem roundHalfEven_int (k : ℤ) : roundHalfEven k = k :=
  le_antisymm (roundHalfEven_le le_rfl) (le_roundHalfEven le_rfl)

private theorem exponent_of_large {q : ℚ} (h : 2^53 ≤ |q|) : 1 ≤ exponent q ∧ exponent q = Int.log 2 |q| - 52 := by
  have hlog : (53 : ℤ) ≤ Int.log 2 |q| := by
    rw [← Int.zpow_le_iff_le_log Nat.one_lt_two (lt_of_lt_of_le (by norm_num) h)]
    exact_mod_cast h
  unfold exponent
  omega

/-- Integers of at most 53 digits, and the next one, are exact. -/
theorem round_int {n : ℤ} (h : |n| ≤ 2^53) : round n = .finite n := by
  have hq : |(n : ℚ)| ≤ 2^53 := by exact_mod_cast h
  have hint : ∃ k : ℤ, (n : ℚ) / 2^exponent n = k := by
    rcases hq.lt_or_eq with hlt | heq
    · have he : exponent n ≤ 0 := by
        rcases eq_or_ne n 0 with rfl | hn
        · simp [exponent]
        · have hlog : Int.log 2 |(n : ℚ)| < 53 := by
            rw [← Int.lt_zpow_iff_log_lt Nat.one_lt_two (abs_pos.mpr (by exact_mod_cast hn))]
            exact_mod_cast hlt
          unfold exponent
          omega
      obtain ⟨k,hk⟩ := Int.eq_ofNat_of_zero_le (neg_nonneg.mpr he)
      refine ⟨n * 2^k,?_⟩
      rw [div_eq_mul_inv,← zpow_neg,hk]
      push_cast
      rfl
    · have hlog : exponent n = 1 := by
        have := exponent_of_large heq.ge
        rw [this.2,heq]
        have : Int.log 2 ((2 : ℚ)^53) = 53 := Int.log_zpow Nat.one_lt_two 53
        rw [this]
        rfl
      have hn : n = 2^53 ∨ n = -2^53 := by
        have : |n| = 2^53 := by exact_mod_cast heq
        exact eq_or_eq_neg_of_abs_eq this
      rw [hlog]
      rcases hn with rfl | rfl
      · exact ⟨2^52,by norm_num⟩
      · exact ⟨-2^52,by norm_num⟩
  obtain ⟨k,hk⟩ := hint
  have hp : (2 : ℚ)^exponent n ≠ 0 := zpow_ne_zero _ two_ne_zero
  have hr : (roundHalfEven (n / 2^exponent n) : ℚ) * 2^exponent n = n := by
    rw [hk,roundHalfEven_int,← hk,div_mul_cancel₀ _ hp]
  unfold round
  rw [hr]
  exact if_pos (hq.trans_lt (pow_lt_pow_right₀ one_lt_two (by decide)))

/-- Rounding keeps a number beyond the exact integers where it is. -/
private theorem round_large {q : ℚ} (h : 2^53 ≤ |q|) :
    2^53 ≤ |(roundHalfEven (q / 2^exponent q) : ℚ) * 2^exponent q| ∧
      (0 ≤ (roundHalfEven (q / 2^exponent q) : ℚ) * 2^exponent q ↔ 0 ≤ q) := by
  obtain ⟨he,hlog⟩ := exponent_of_large h
  have hp : (0 : ℚ) < 2^exponent q := zpow_pos two_pos _
  have hq : 0 < |q| := lt_of_lt_of_le (by norm_num) h
  have hdigits : 2^52 * (2 : ℚ)^exponent q ≤ |q| := by
    have hself := Int.zpow_log_le_self Nat.one_lt_two hq
    push_cast at hself
    rw [show Int.log 2 |q| = 52 + exponent q by omega,zpow_add₀ two_ne_zero] at hself
    exact_mod_cast hself
  have hscale : (2 : ℚ)^53 ≤ 2^52 * 2^exponent q := by
    have : (2 : ℚ)^(1 : ℤ) ≤ 2^exponent q := zpow_le_zpow_right₀ one_le_two he
    linarith
  rcases le_or_gt 0 q with hs | hs
  · rw [abs_of_nonneg hs] at hdigits
    have hr : (2 : ℚ)^52 ≤ roundHalfEven (q / 2^exponent q) := by
      have : ((2^52 : ℤ) : ℚ) ≤ q / 2^exponent q := by
        rw [le_div_iff₀ hp]
        exact_mod_cast hdigits
      exact_mod_cast le_roundHalfEven this
    have := mul_le_mul_of_nonneg_right hr hp.le
    have hpos := (by norm_num : (0 : ℚ) ≤ 2^53).trans (hscale.trans this)
    exact ⟨(hscale.trans this).trans (le_abs_self _),iff_of_true hpos hs⟩
  · rw [abs_of_neg hs] at hdigits
    have hr : (roundHalfEven (q / 2^exponent q) : ℚ) ≤ -2^52 := by
      have : q / 2^exponent q ≤ ((-2^52 : ℤ) : ℚ) := by
        rw [div_le_iff₀ hp]
        push_cast
        linarith
      exact_mod_cast roundHalfEven_le this
    have := mul_le_mul_of_nonneg_right hr hp.le
    have hneg : (roundHalfEven (q / 2^exponent q) : ℚ) * 2^exponent q ≤ -2^53 := by linarith
    refine ⟨?_,iff_of_false (not_le.mpr (hneg.trans_lt (by norm_num))) (not_le.mpr hs)⟩
    rw [abs_of_nonpos (hneg.trans (by norm_num))]
    linarith

/-- A rounded integer compares with an exact one as the integer itself. -/
theorem lt_round_int {n x : ℤ} (hx : |x| < 2^53) : lt (round n) (.finite x) = decide (n < x) := by
  have ⟨hlow,hhigh⟩ := abs_lt.mp hx
  rcases le_or_gt |n| (2^53) with h | h
  · rw [round_int h]
    exact decide_eq_decide.mpr Int.cast_lt
  · have hq : (2 : ℚ)^53 ≤ |(n : ℚ)| := by exact_mod_cast h.le
    obtain ⟨hr,hs⟩ := round_large hq
    have hsign : (0 : ℚ) ≤ n ↔ 0 ≤ n := Int.cast_nonneg_iff
    have hx' : |(x : ℚ)| < 2^53 := by exact_mod_cast hx
    have ⟨hlow',hhigh'⟩ := abs_lt.mp hx'
    unfold round
    generalize (roundHalfEven ((n : ℚ) / 2^exponent n) : ℚ) * 2^exponent n = r at hr hs
    rcases le_or_gt 0 n with hn | hn
    · rw [abs_of_nonneg hn] at h
      rw [abs_of_nonneg (hs.mpr (hsign.mpr hn))] at hr
      have hneg : ¬ (n : ℚ) < 0 := not_lt.mpr (hsign.mpr hn)
      dsimp only
      split_ifs
      · exact decide_eq_decide.mpr (iff_of_false (not_lt.mpr (hhigh'.le.trans hr)) (by omega))
      · simp only [lt,hneg,decide_false]
        exact (decide_eq_false (by omega)).symm
    · rw [abs_of_neg hn] at h
      have hneg : (n : ℚ) < 0 := by exact_mod_cast hn
      rw [abs_of_neg (not_le.mp fun h0 => not_le.mpr hneg (hs.mp h0))] at hr
      dsimp only
      split_ifs
      · exact decide_eq_decide.mpr (iff_of_true (by linarith) (by omega))
      · simp only [lt,hneg,decide_true]
        exact (decide_eq_true (by omega)).symm

/-- Only an exact integer rounds to one. -/
theorem eq_of_round_int {n m : ℤ} (hm : |m| < 2^53) (h : round n = .finite m) : n = m := by
  rcases le_or_gt |n| (2^53) with hn | hn
  · rw [round_int hn] at h
    exact_mod_cast finite.inj h
  · have hq : (2 : ℚ)^53 ≤ |(n : ℚ)| := by exact_mod_cast hn.le
    have hlarge := (round_large hq).1
    unfold round at h
    dsimp only at h
    split_ifs at h
    rw [finite.inj h] at hlarge
    have : (2 : ℤ)^53 ≤ |m| := by exact_mod_cast hlarge
    exact absurd hm (not_lt.mpr this)

end Binary64
end ExecutionFinality
