/-
Scalars over the rationals.

What a scalar can do is there what the rationals can: `least` and `greatest` are minimum and maximum, `magnitude` is the
absolute value, and a quotient is refused for zero only. The least and the greatest value of a list are those of its
elements (`leastOf_eq_some_iff`, `greatestOf_eq_some_iff`).
-/
import Mathlib.Order.Bounds.Basic
import SceneGrammar.Proofs.Exact

namespace SceneGrammar.Scalar

theorem zero_rat : (zero : ℚ) = 0 := Int.cast_zero

theorem one_rat : (one : ℚ) = 1 := Int.cast_one

theorem divide_ok {a b : ℚ} (hb : b ≠ 0) : divide a b = .ok (a / b) :=
  if_neg fun h => hb (beq_iff_eq.1 h)

@[simp] theorem least_rat (a b : ℚ) : least a b = min a b := by
  rw [min_comm, min_def_lt]
  exact if_congr Iff.rfl rfl rfl

@[simp] theorem greatest_rat (a b : ℚ) : greatest a b = max a b := by
  rw [max_def_lt]
  exact if_congr Iff.rfl rfl rfl

@[simp] theorem clamp_rat (lo hi a : ℚ) : clamp lo hi a = min (max a lo) hi := by
  rw [clamp, least_rat, greatest_rat]

@[simp] theorem magnitude_rat (a : ℚ) : magnitude a = |a| := by
  have hzero : a < zero ↔ a < 0 := by rw [zero_rat]
  unfold magnitude
  split_ifs with h
  · exact (abs_of_neg (hzero.1 h)).symm
  · exact (abs_of_nonneg (not_lt.1 fun hneg => h (hzero.2 hneg))).symm

/-! ## Lists -/

theorem leastOf_rat (l : List ℚ) : leastOf l = l.min? := by
  cases l with
  | nil => rfl
  | cons a l => rw [leastOf, List.min?_cons', show (least : ℚ → ℚ → ℚ) = min from funext₂ least_rat]

theorem greatestOf_rat (l : List ℚ) : greatestOf l = l.max? := by
  cases l with
  | nil => rfl
  | cons a l => rw [greatestOf, List.max?_cons', show (greatest : ℚ → ℚ → ℚ) = max from funext₂ greatest_rat]

theorem leastOf_eq_some_iff {l : List ℚ} {a : ℚ} : leastOf l = some a ↔ IsLeast {b | b ∈ l} a := by
  rw [leastOf_rat, List.min?_eq_some_iff]
  rfl

theorem greatestOf_eq_some_iff {l : List ℚ} {a : ℚ} : greatestOf l = some a ↔ IsGreatest {b | b ∈ l} a := by
  rw [greatestOf_rat, List.max?_eq_some_iff]
  rfl

end SceneGrammar.Scalar
