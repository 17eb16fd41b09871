/-
Iterating one step.

Three things can be said of a machine that does the same step over and over.  An
invariant of the step holds forever.  A measure that goes down as long as a goal is
not reached gets the machine to the goal.  And if everybody in a queue gets a turn
of the same length and goes to the back, the queue rotates, and after as many turns
as there are people in it the machine is where it was.
-/
import Mathlib.Data.List.Rotate
import Mathlib.Logic.Function.Iterate

namespace Rounds

variable {σ α : Type} {f : σ → σ}

/-- **What a step keeps holds forever.** -/
theorem invariant {P : σ → Prop} (hstep : ∀ s, P s → P (f s)) :
    ∀ (k : Nat) (s : σ), P s → P (f^[k] s) := by
  intro k
  induction k with
  | zero =>
      intro s hs
      exact hs
  | succ k ih =>
      intro s hs
      rw [Function.iterate_succ_apply]
      exact ih (f s) (hstep s hs)

/-- **A measure that goes down until the goal is reached.** -/
theorem reaches {P Q : σ → Prop} (μ : σ → Nat)
    (hstep : ∀ s, P s → ¬Q s → P (f s) ∧ μ (f s) < μ s) :
    ∀ (n : Nat) (s : σ), μ s = n → P s → ∃ k, P (f^[k] s) ∧ Q (f^[k] s) := by
  intro n
  induction n using Nat.strong_induction_on with
  | _ n ih =>
      intro s hn hs
      by_cases hq : Q s
      · exact ⟨0, hs, hq⟩
      · obtain ⟨hs', hlt⟩ := hstep s hs hq
        obtain ⟨k, hP, hQ⟩ := ih (μ (f s)) (by omega) (f s) rfl hs'
        refine ⟨k + 1, ?_, ?_⟩
        · rw [Function.iterate_succ_apply]
          exact hP
        · rw [Function.iterate_succ_apply]
          exact hQ

/-- A state that comes back once comes back forever. -/
theorem periodic_from {s : σ} {M p : Nat} (h : f^[p] (f^[M] s) = f^[M] s) :
    ∀ k, M ≤ k → f^[k + p] s = f^[k] s := by
  intro k hk
  obtain ⟨d, rfl⟩ := Nat.exists_eq_add_of_le hk
  rw [show M + d + p = d + (p + M) by omega, show M + d = d + M by omega,
    Function.iterate_add_apply, Function.iterate_add_apply f d M, Function.iterate_add_apply, h]

/-- **Turns of equal length rotate the queue.**  `state l` is the machine with queue `l`, and
`P` is whatever a turn needs of the queue and rotating it keeps. -/
theorem iterate_turns (state : List α → σ) {P : List α → Prop} {q : Nat}
    (hrot : ∀ c l, P (c :: l) → P (l ++ [c]))
    (hturn : ∀ c l, P (c :: l) → f^[q] (state (c :: l)) = state (l ++ [c])) :
    ∀ (a : Nat) (l : List α), l ≠ [] → P l → f^[q * a] (state l) = state (l.rotate a) := by
  intro a
  induction a with
  | zero =>
      intro l _ _
      simp
  | succ a ih =>
      intro l hne hok
      cases l with
      | nil => exact absurd rfl hne
      | cons c l =>
          rw [Nat.mul_succ, Function.iterate_add_apply, hturn c l hok,
            ih _ (by simp) (hrot c l hok), List.rotate_cons_succ]

end Rounds
