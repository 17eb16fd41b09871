/-
Shares of a fixed total.

`f i` is what holder `i` has beyond its due.  When everybody's excess adds up to
nothing, nothing has leaked: moving an amount between two holders keeps it so, no
one holds more than all the others can be short of, and what one holder is short of
is what the others have too much of.
-/
import Mathlib.Algebra.BigOperators.Ring.Finset
import Mathlib.Algebra.Order.BigOperators.Group.Finset
import Mathlib.Algebra.Order.BigOperators.Ring.Finset
import Mathlib.Tactic.Linarith

namespace Shares

open Finset Function

variable {ι : Type} [Fintype ι] [DecidableEq ι]

/-- What everybody holds beyond their due adds up to nothing. -/
def Balanced (f : ι → ℤ) : Prop := ∑ i, f i = 0

theorem sum_update (f : ι → ℤ) (i : ι) (v : ℤ) :
    ∑ j, update f i v j = ∑ j, f j - f i + v := by
  have hrest : ∑ j ∈ univ \ {i}, f j = ∑ j, f j - f i := by
    rw [sdiff_singleton_eq_erase]
    exact sum_erase_eq_sub (mem_univ i)
  rw [sum_update_of_mem (mem_univ i), hrest]
  ring

/-- **An amount moved between two holders leaks nothing.** -/
theorem sum_move (f : ι → ℤ) {i j : ι} (hij : i ≠ j) (d : ℤ) :
    ∑ k, update (update f i (f i - d)) j (f j + d) k = ∑ k, f k := by
  rw [sum_update, sum_update, update_of_ne (Ne.symm hij)]
  ring

/-- Somebody whose excess does not change may be replaced. -/
theorem Balanced.update_same {f : ι → ℤ} (h : Balanced f) {i : ι} {v : ℤ} (hv : v = f i) :
    Balanced (update f i v) := by
  rw [hv, update_eq_self]
  exact h

/-- What a holder has too much, the others are short of. -/
theorem sum_others (f : ι → ℤ) (i : ι) : ∑ j ∈ univ.erase i, f j = ∑ j, f j - f i :=
  sum_erase_eq_sub (mem_univ i)

/-- **No one holds more than the others can be short of.** -/
theorem Balanced.le_of_floor {f : ι → ℤ} (h : Balanced f) {b : ℤ} (hfloor : ∀ j, -b ≤ f j)
    (i : ι) : f i + b ≤ Fintype.card ι * b := by
  have hothers := sum_others f i
  have hlow : ∑ j ∈ univ.erase i, -b ≤ ∑ j ∈ univ.erase i, f j :=
    sum_le_sum fun j _ => hfloor j
  have hcard : ((univ.erase i).card : ℤ) = Fintype.card ι - 1 := by
    rw [card_erase_of_mem (mem_univ i), card_univ, Nat.cast_sub]
    · rfl
    · exact Fintype.card_pos_iff.mpr ⟨i⟩
  rw [sum_const, nsmul_eq_mul, hcard] at hlow
  rw [Balanced] at h
  rw [h] at hothers
  linarith

/-- The others cannot owe a holder anything when none of them has too much. -/
theorem others_nonpos {f : ι → ℤ} {i : ι} (h : ∀ j, j ≠ i → f j ≤ 0) :
    ∑ j, f j ≤ f i := by
  have hothers := sum_others f i
  have hle : ∑ j ∈ univ.erase i, f j ≤ 0 := sum_nonpos fun j hj => h j (ne_of_mem_erase hj)
  linarith

omit [DecidableEq ι] in
/-- Nor is a holder owed anything by others who all hold their due. -/
theorem others_zero {f : ι → ℤ} {i : ι} (h : ∀ j, j ≠ i → f j = 0) : ∑ j, f j = f i :=
  sum_eq_single i (fun j _ hj => h j hj) fun hi => absurd (mem_univ i) hi

end Shares
