/-
Functions that are given a number of iterations.

A loop that no measure bounds beforehand is a function of the number of iterations it may
take, and `none` when they do not suffice.  `Gives` is its result: what it returns from
some number on.  The rules below say how the results of two such functions hang together
when one of them is made from the other or goes on as the other, so that a proof about a
loop does not count.
-/
import Mathlib.Tactic.Common

namespace Fuel

variable {α β : Type*} {f g : ℕ → Option α} {r r' : α}

/-- The result, given enough iterations. -/
def Gives (f : ℕ → Option α) (r : α) : Prop := ∃ enough, ∀ fuel, enough ≤ fuel → f fuel = some r

theorem Gives.unique (h : Gives f r) (h' : Gives f r') : r = r' := by
  obtain ⟨enough, hgives⟩ := h
  obtain ⟨enough', hgives'⟩ := h'
  have heq := hgives (enough + enough') (by omega)
  rw [hgives' (enough + enough') (by omega)] at heq
  exact (Option.some.inj heq).symm

theorem Gives.map (h : Gives f r) (k : α → β) : Gives (fun fuel => (f fuel).map k) (k r) := by
  obtain ⟨enough, hgives⟩ := h
  refine ⟨enough, fun fuel hfuel => ?_⟩
  show (f fuel).map k = some (k r)
  rw [hgives fuel hfuel, Option.map_some]

/-- **A function goes on as another** after some iterations, so both come to the same. -/
theorem gives_add_iff (k enough : ℕ) (hstep : ∀ fuel, enough ≤ fuel → f (fuel + k) = g fuel) :
    Gives f r ↔ Gives g r := by
  constructor
  · rintro ⟨enough', hgives⟩
    refine ⟨enough + enough', fun fuel hfuel => ?_⟩
    rw [← hstep fuel (by omega)]
    exact hgives (fuel + k) (by omega)
  · rintro ⟨enough', hgives⟩
    refine ⟨enough + enough' + k, fun fuel hfuel => ?_⟩
    obtain ⟨more, rfl⟩ : ∃ more, fuel = more + k := ⟨fuel - k, by omega⟩
    rw [hstep more (by omega)]
    exact hgives more (by omega)

end Fuel
