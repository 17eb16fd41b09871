/-
`main`: the loop over the input.

One iteration reads a line and calls `exec_job`.  What that does is a matter of the text
alone, up to the point where the jobs come in (`plan`): a built-in is run, or so many
children are started.  From there on it is a matter of the jobs and of what the system
answers, and the shell may come back from it with other jobs, exit, or be brought down.
A null pointer that is followed brings it down, and so does a 129th command, which is
written behind the end of `cmdlines`.

The shell reads its input through a buffer, and the children have the file open too.  One
that reads from it moves the place where the shell reads on, and one that comes to the
`exit(-1)` of `process_cmd` moves it back, by what it has inherited in the buffer and not
read.  So where a read of the shell starts is up to the environment.  The rest of what it
does goes well: there is a prompt to show, `pipe` has descriptors, of which the shell loses
one with every command, and `malloc` has room.
-/
import KernelProgramming.Lib.Buffered
import KernelProgramming.Shell.Exec

namespace Shell

open Buffered

/-! ### One call of `exec_job` -/

/-- What `exec_job` does with a text. -/
inductive Plan
  | exit | jobs | cd | crash | overrun
  | resume (argv : List CString) (fg : Bool)
  | launch (count : Nat) (async : Bool)
  deriving DecidableEq, Repr

def Action.plan : Action → Plan
  | .exit => .exit
  | .jobs => .jobs
  | .cd _ => .cd
  | .bg argv => .resume argv false
  | .fg argv => .resume argv true
  | .crash => .crash
  | .launch cmds async => .launch cmds.length async

/-- `count` in `exec_job`. -/
def commandCount (cmd : CString) : Nat := cmd.count '|' + 1

/-- A command that is alone may be a built-in. -/
def planAlone (cmd : CString) (async : Bool) : Plan :=
  match execInternalCmd cmd with
  | some action => action.plan
  | none => .launch 1 async

def plan (cmdline : CString) : Plan :=
  let (cmd, async) := cutAsync cmdline
  if maxPipe < commandCount cmd then .overrun
  else if '|' ∈ cmd then .launch (commandCount cmd) async
  else planAlone cmd async

/-- What the system answers during one call of `exec_job`: to the `waitpid` of the `reap` in
`exec_internal_cmd` and of the one in `exec_job`, to `fork`, to `kill` and to the `waitpid` of
`wait_job`, and what uninitialised variables hold. -/
structure Answers where
  reaped : List (Int × Event)
  reapedLater : List (Int × Event)
  fork : Nat → Int
  killOk : Bool
  report : Reports
  garbage : Int
  status : WaitStatus

/-- What becomes of the shell in `exec_job`. -/
inductive Outcome
  | returned (s : Sh)
  | exited
  | crashed

/-- A null pointer that is followed is the end. -/
def Outcome.ofOption : Option Sh → Outcome
  | some s => .returned s
  | none => .crashed

def Plan.exec (s : Sh) (a : Answers) : Plan → Outcome
  | .exit => .exited
  | .jobs => .returned s
  | .cd => .returned s
  | .crash => .crashed
  | .overrun => .crashed
  | .resume argv fg => .ofOption (Shell.resume s argv fg a.garbage a.killOk a.status a.report)
  | .launch count async =>
      .ofOption ((reap s a.reapedLater).bind fun s =>
        Shell.execJob s ((List.range count).map a.fork) async a.status a.report)

/-- `exec_job`.  It comes to the `reap` of `exec_internal_cmd` if there is one command only. -/
def execLine (s : Sh) (cmdline : CString) (a : Answers) : Outcome :=
  if '|' ∈ (cutAsync cmdline).1 then (plan cmdline).exec s a
  else
    match reap s a.reaped with
    | some s => (plan cmdline).exec s a
    | none => .crashed

/-! ### The loop -/

/-- `fgets` on the stream. -/
def fgetsFrom (sys : Supply) : Nat → Reader Char → CString × Reader Char
  | 0, stdin => ([], stdin)
  | n + 1, stdin =>
      match stdin.next sys with
      | (none, stdin) => ([], stdin)
      | (some c, stdin) =>
          if c = '\n' then ([c], stdin)
          else (c :: (fgetsFrom sys n stdin).1, (fgetsFrom sys n stdin).2)

/-- `get_cmd_line` on the stream. -/
def getCmdLineFrom (sys : Supply) (stdin : Reader Char) : Option CString × Reader Char :=
  let (piece, stdin) := fgetsFrom sys (maxCmdlineLen - 1) stdin
  (cutPiece piece, stdin)

/-- What the system does: with the reads of the shell, and in the `k`-th call of `exec_job`. -/
structure Environment where
  reads : Supply
  answers : Nat → Answers

/-- Where the loop of `main` is after some iterations. -/
inductive Ending
  | prompting | exited | crashed
  deriving DecidableEq, Repr

/-- Some iterations of the loop: the strings `exec_job` was called with, where the loop is, and
the stream. -/
structure Iterations where
  calls : List CString
  ending : Ending
  stdin : Reader Char

/-- So many iterations of the loop of `main`, after `k` calls of `exec_job`. -/
def mainLoop (env : Environment) : Nat → Reader Char → Sh → Nat → Iterations
  | 0, stdin, _, _ => { calls := [], ending := .prompting, stdin }
  | fuel + 1, stdin, s, k =>
      match getCmdLineFrom env.reads stdin with
      | (none, stdin) => mainLoop env fuel stdin s k
      | (some cmdline, stdin) =>
          match execLine s cmdline (env.answers k) with
          | .returned s =>
              let later := mainLoop env fuel stdin s (k + 1)
              { later with calls := cmdline :: later.calls }
          | .exited => { calls := [cmdline], ending := .exited, stdin }
          | .crashed => { calls := [cmdline], ending := .crashed, stdin }

/-- `main` on a standard input. -/
def main (env : Environment) (stdin : CString) (fuel : Nat) : Iterations :=
  mainLoop env fuel (opened stdin) start 0

end Shell
