/-
Every pipe leaves its read end open in the shell.

The shell closes the end it has handed to the writer and keeps the other one in `in`,
for the next child to take its input from.  It never closes it, not even after the last
iteration, whose pipe nobody uses at all.
-/
import KernelProgramming.Shell.Launch

namespace Shell

open Descriptors

variable {t : Table File}

/-- Launching a pipeline of `n` commands leaves the shell with the descriptors it had, and
the read end of the pipe after stage `i` with stage `i + 1` alone. -/
structure LeaksNothing (t : Table File) (n : Nat) : Prop where
  shell : (launch t n).shell.openFds = t.openFds
  shellReadEnd : ∀ i, i + 1 < n → ¬(launch t n).shell.Holds (.readEnd i)
  stageReadEnd : ∀ i, i + 1 < n → ∀ j table, (launch t n).stages[j]? = some table → j ≠ i + 1 →
    ¬table.Holds (.readEnd i)

/-- An iteration opens the read end of its pipe in the shell. -/
theorem launchStage_opened (count i : Nat) (l : Launch) :
    Table.Opened (.readEnd i) l.shell (launchStage count i l).shell := by
  refine ⟨l.shell.lowest, l.shell.lowest_free, ?_⟩
  exact Table.close_alloc (l.shell.alloc (.readEnd i)).2 (.writeEnd i)

theorem launchUpTo_ncard (t : Table File) (count : Nat) :
    ∀ n, (launchUpTo t count n).shell.openFds.ncard = t.openFds.ncard + n := by
  intro n
  induction n with
  | zero => rfl
  | succ n ih =>
      have hopened := launchStage_opened count n (launchUpTo t count n)
      rw [launchUpTo, hopened.ncard, ih, Nat.add_assoc]

theorem launchUpTo_holds (t : Table File) (count : Nat) :
    ∀ n i, i < n → (launchUpTo t count n).shell.Holds (.readEnd i) := by
  intro n
  induction n with
  | zero =>
      intro i hi
      exact absurd hi (Nat.not_lt_zero i)
  | succ n ih =>
      intro i hi
      have hopened := launchStage_opened count n (launchUpTo t count n)
      rcases Nat.lt_succ_iff_lt_or_eq.mp hi with hlt | rfl
      · exact hopened.holds (ih i hlt)
      · exact hopened.holds_self

/--
**Every pipeline leaks.**  Whatever the shell has open, launching `n` commands leaves it
with `n` more descriptors, the read end of every pipe among them.
-/
theorem launch_leaks (t : Table File) {n : Nat} (hn : 1 ≤ n) :
    ¬LeaksNothing t n ∧ (launch t n).shell.openFds.ncard = t.openFds.ncard + n ∧
      ∀ i, i < n → (launch t n).shell.Holds (.readEnd i) := by
  have hcard := launchUpTo_ncard t n n
  refine ⟨?_, hcard, launchUpTo_holds t n n⟩
  intro hnone
  have hsame : (launchUpTo t n n).shell.openFds = t.openFds := hnone.shell
  rw [hsame] at hcard
  omega

theorem launch_leaks_terminal : ¬LeaksNothing terminal 1 :=
  (launch_leaks terminal (le_refl 1)).1

/-- Two commands from a terminal: the read end of the pipe between them stays open in the
shell as 3. -/
theorem leaksNothing_fails : ¬LeaksNothing terminal 2 := by
  intro hnone
  refine hnone.shellReadEnd 0 (by decide) ⟨3, ?_⟩
  decide

end Shell
