/-
When `sum` ends, and with which `result`.

Every iteration brings `from` one closer to `to + 1`, and `result` is the sum of what
was passed.  That `from + 1` is the next number needs `from` to be below the greatest
`int`; it is as long as `to` is.  For the greatest `to` there is no number past it, so
the condition of the loop is always true.
-/
import Mathlib
import KernelProgramming.Lib.Fuel
import KernelProgramming.Labs.Mysum

namespace Mysum

open Fuel

variable {from_ to_ : Int32}

/-- The sum of all integers from one to the other. -/
noncomputable def total (a b : ℤ) : ℤ := ∑ k ∈ Finset.Icc a b, k

theorem total_of_lt {a b : ℤ} (h : b < a) : total a b = 0 := by
  unfold total
  rw [Finset.Icc_eq_empty (not_le.mpr h), Finset.sum_empty]

theorem total_of_le {a b : ℤ} (h : a ≤ b) : total a b = a + total (a + 1) b := by
  unfold total
  rw [← Finset.insert_Icc_add_one_left_eq_Icc h, Finset.sum_insert]
  rw [Finset.mem_Icc]
  omega

theorem two_mul_total (n : ℕ) : ∀ a b : ℤ, a + n = b + 1 → 2 * total a b = (b - a + 1) * (a + b) := by
  induction n with
  | zero =>
      intro a b h
      rw [total_of_lt (by push_cast at h; omega), show b - a + 1 = 0 by push_cast at h; omega]
      ring
  | succ n ih =>
      intro a b h
      push_cast at h
      rw [total_of_le (by omega), mul_add, ih (a + 1) b (by omega)]
      ring

/-- The closed form. -/
theorem total_eq (a b : ℤ) : total a b = if a ≤ b then (b - a + 1) * (a + b) / 2 else 0 := by
  split
  · rename_i hle
    have htwo := two_mul_total (b + 1 - a).toNat a b (by omega)
    rw [← htwo, Int.mul_ediv_cancel_left _ two_ne_zero]
  · rename_i hlt
    exact total_of_lt (not_le.mp hlt)

/-- One more number fits. -/
theorem toInt_succ (h : from_.toInt < 2147483647) : (from_ + 1).toInt = from_.toInt + 1 := by
  have hle : -2147483648 ≤ from_.toInt := from_.le_toInt
  rw [Int32.toInt_add, show (1 : Int32).toInt = 1 from rfl]
  refine Int.bmod_eq_of_le ?_ ?_
  · norm_num
    omega
  · norm_num
    omega

/-- **The loop**, with `n` numbers ahead of it. -/
theorem sumLoop_eq (hto : to_.toInt < 2147483647) : ∀ (n : ℕ) (from_ result : Int32),
    from_.toInt + n = to_.toInt + 1 → ∀ fuel,
      sumLoop to_ (fuel + n + 1) from_ result
        = some (result + Int32.ofInt (total from_.toInt to_.toInt)) := by
  intro n
  induction n with
  | zero =>
      intro from_ result hn fuel
      push_cast at hn
      have hpast : ¬from_ ≤ to_ := by
        rw [Int32.le_iff_toInt_le]
        omega
      rw [sumLoop, if_neg hpast, total_of_lt (by omega)]
      exact congrArg some (Int32.add_zero result).symm
  | succ n ih =>
      intro from_ result hn fuel
      push_cast at hn
      have hle : from_ ≤ to_ := by
        rw [Int32.le_iff_toInt_le]
        omega
      have hsucc : (from_ + 1).toInt = from_.toInt + 1 := toInt_succ (by omega)
      rw [sumLoop, if_pos hle, ← Nat.add_assoc, ih (from_ + 1) _ (by omega) fuel, hsucc,
        total_of_le (by omega : from_.toInt ≤ to_.toInt), Int32.ofInt_add, Int32.ofInt_toInt,
        Int32.add_assoc]

/-- **The loop for the greatest `to`** never ends. -/
theorem sumLoop_max (hto : to_ = Int32.maxValue) : ∀ (fuel : ℕ) (from_ result : Int32),
    sumLoop to_ fuel from_ result = none := by
  intro fuel
  induction fuel with
  | zero =>
      intro from_ result
      rfl
  | succ fuel ih =>
      intro from_ result
      have hle : from_ ≤ to_ := by
        rw [hto, Int32.le_iff_toInt_le]
        exact from_.toInt_le
      rw [sumLoop, if_pos hle]
      exact ih _ _

/-- `sum` ends, and `result` is the sum of all integers from `from` to `to`, for which there is
a closed form. -/
def Exact (from_ to_ : Int32) : Prop :=
  Gives (sum from_ to_) (Int32.ofInt (total from_.toInt to_.toInt)) ∧
    total from_.toInt to_.toInt
      = if from_.toInt ≤ to_.toInt then
          (to_.toInt - from_.toInt + 1) * (from_.toInt + to_.toInt) / 2
        else 0

/-- **When `sum` is total and exact.** -/
theorem sum_exact_iff (from_ to_ : Int32) :
    Exact from_ to_ ↔ from_ > to_ ∨ to_ ≠ Int32.maxValue := by
  constructor
  · rintro ⟨⟨enough, hgives⟩, -⟩
    by_contra hnot
    rw [not_or, not_not] at hnot
    have hnone := hgives enough le_rfl
    rw [sum, if_neg hnot.1, sumLoop_max hnot.2] at hnone
    cases hnone
  · intro h
    refine ⟨?_, total_eq _ _⟩
    by_cases hlt : from_ > to_
    · refine ⟨0, fun fuel _ => ?_⟩
      rw [sum, if_pos hlt, total_of_lt (Int32.lt_iff_toInt_lt.mp hlt)]
      rfl
    · have hne := h.resolve_left hlt
      have hto : to_.toInt < 2147483647 := by
        refine lt_of_le_of_ne to_.toInt_le fun heq => hne ?_
        exact Int32.toInt.inj heq
      have hle : from_.toInt ≤ to_.toInt := by
        rw [gt_iff_lt, Int32.lt_iff_toInt_lt] at hlt
        omega
      refine ⟨(to_.toInt + 1 - from_.toInt).toNat + 1, fun fuel hfuel => ?_⟩
      obtain ⟨more, rfl⟩ : ∃ more, fuel = more + (to_.toInt + 1 - from_.toInt).toNat + 1 :=
        ⟨fuel - 1 - (to_.toInt + 1 - from_.toInt).toNat, by omega⟩
      rw [sum, if_neg hlt, sumLoop_eq hto _ _ _ (by omega)]
      exact congrArg some (Int32.zero_add _)

/-- The sum of the one number 2147483647. -/
theorem sum_max_not_exact : ¬Exact 2147483647 2147483647 := by
  rintro ⟨⟨enough, hgives⟩, -⟩
  have hnone := hgives enough le_rfl
  rw [sum, if_neg (by decide), sumLoop_max rfl] at hnone
  cases hnone

end Mysum
