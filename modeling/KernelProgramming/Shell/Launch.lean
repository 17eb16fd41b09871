/-
The descriptors of a pipeline while `exec_job` launches it.

Every iteration makes a pipe, forks, and goes on in the shell.  A child gets a copy of
the shell's table, rewires its own copy and enters `process_cmd`.  From the fork on the
two tables have nothing to do with each other, so the order in which the shell and its
children run does not matter.  `pipe` and `fork` succeed.
-/
import KernelProgramming.Lib.Descriptors

namespace Shell

open Descriptors

/-- An open file: one end of the pipe made in iteration `pipe`, or a file the shell had open
before. -/
inductive File
  | outside (id : Nat)
  | readEnd (pipe : Nat)
  | writeEnd (pipe : Nat)
  deriving DecidableEq, Repr

/-- The table of the child of iteration `i` when it enters `process_cmd`; `input` is the
shell's variable `in`, and `fd0` and `fd1` are the two ends of the pipe. -/
def childTable (t : Table File) (i count input fd0 fd1 : Nat) : Table File :=
  let t :=
    if i ≠ 0 then (((t.close 0).dup input).close fd0).close input
    else t
  if i ≠ count - 1 then ((t.close 1).dup fd1).close fd1
  else t

/-- The loop of `exec_job`: the shell's table, its variable `in`, and the tables of the
children forked so far, in their order. -/
structure Launch where
  shell : Table File
  input : Nat
  stages : List (Table File)

/-- One iteration. -/
def launchStage (count i : Nat) (l : Launch) : Launch :=
  let r := l.shell.alloc (.readEnd i)
  let w := r.2.alloc (.writeEnd i)
  { shell := w.2.close w.1
    input := r.1
    stages := l.stages ++ [childTable w.2 i count l.input r.1 w.1] }

/-- The first iterations of the loop. -/
def launchUpTo (t : Table File) (count : Nat) : Nat → Launch
  | 0 => { shell := t, input := 0, stages := [] }
  | i + 1 => launchStage count i (launchUpTo t count i)

/-- The whole loop, for a pipeline of `count` commands. -/
def launch (t : Table File) (count : Nat) : Launch := launchUpTo t count count

/-- A shell with a terminal on descriptors 0, 1 and 2. -/
def terminal : Table File where
  file fd := if fd < 3 then some (.outside 0) else none
  bound := 3
  closed := by
    intro fd h
    exact if_neg (Nat.not_lt.mpr h)

end Shell
