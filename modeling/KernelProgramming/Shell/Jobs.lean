/-
The job list of `myshell.c`.

A job is never freed, so `JobId` counts the jobs in the order of their `malloc`, and
`head` and the `next` pointers are the list `head` of ids.  A null pointer that is
followed ends the shell, which is `none`.

`child` is the kernel's side of it: the children whose termination no `waitpid` has
collected, each with the job it was forked for.  The kernel may give a pid to a new
child as soon as the old one is collected, so a pid alone does not tell which process
is meant.  What happens to a child is an `Event`, and it is the environment that
chooses it, like the other things no code in this file decides: the pids `fork`
returns, whether `kill` succeeds, and what uninitialised variables hold.

A `fork` that fails returns -1, which `exec_job` takes for a pid like any other.  To
`waitpid` it is not one: -1 stands for any child.
-/
import Mathlib.Tactic.Common
import Mathlib.Logic.Function.Basic

namespace Shell

/-- A `job *`. -/
abbrev JobId : Type := Nat

/-- A C string, without its terminator. -/
abbrev CString : Type := List Char

/-- `running(0), stopped(1), or terminated(2)`. -/
inductive Status
  | running | stopped | terminated
  deriving DecidableEq, Repr

/-- What the macros `WIFEXITED`, `WIFSIGNALED` and `WIFSTOPPED` tell apart; at most one of
them is true of an `int`. -/
inductive WaitStatus
  | exited | signaled | stopped | other
  deriving DecidableEq, Repr

/-- What `waitpid` reports of a child. -/
inductive Event
  | exited | signaled | stopped
  deriving DecidableEq, Repr

/-- What the calls of `waitpid` in `wait_job` report: of the child that is asked for, and where
any child will do, of which one.  The latter calls are told apart by how many processes of the job
come after them. -/
structure Reports where
  event : Int → Event
  any : Nat → Int × Event

/-- The same event of every child that is asked for.  Where any child will do there is none. -/
def Reports.all (e : Event) : Reports where
  event _ := e
  any _ := (-1, e)

def Event.status : Event → WaitStatus
  | .exited => .exited
  | .signaled => .signaled
  | .stopped => .stopped

/-- The child is a zombie and is collected. -/
def Event.ends : Event → Bool
  | .stopped => false
  | _ => true

structure Process where
  pid : Int
  status : Status
  deriving DecidableEq, Repr

structure Job where
  pgid : Int
  list : List Process
  deriving DecidableEq, Repr

/-- The shell's globals, its jobs, and the children not yet collected. -/
structure Sh where
  job : JobId → Job
  launched : Nat
  head : List JobId
  current : Option JobId
  child : Int → Option JobId

/-- `change_status`. -/
def changeStatus (ps : Process) (status : WaitStatus) : Process :=
  match status with
  | .exited | .signaled => { ps with status := .terminated }
  | .stopped => { ps with status := .stopped }
  | .other => { ps with status := .running }

namespace Job

/-- The flag `terminated` after a loop over the processes. -/
def terminated (jb : Job) : Bool := jb.list.all (·.status = .terminated)

/-- The flag `stopped` after a loop over the processes. -/
def stopped (jb : Job) : Bool := jb.list.all (·.status = .stopped)

def hasPid (jb : Job) (pid : Int) : Bool := jb.list.any (·.pid = pid)

end Job

namespace Sh

def setJob (s : Sh) (j : JobId) (jb : Job) : Sh := { s with job := Function.update s.job j jb }

end Sh

/-! ### Collecting children -/

/-- `jb->next`, for a job on the list. -/
def nextJob : List JobId → JobId → Option JobId
  | [], _ => none
  | k :: rest, j => if k = j then rest.head? else nextJob rest j

/-- The inner loop of `update_process_status`, over the processes of `cur`. -/
def recordStatus (s : Sh) (cur : JobId) (pid : Int) (status : WaitStatus) : Sh :=
  s.setJob cur
    { s.job cur with
      list := (s.job cur).list.map fun ps => if ps.pid = pid then changeStatus ps status else ps }

/-- `update_process_status`.  When no job has the pid, `cur` is null after the search and
`terminated` is 1, so a null pointer is followed whatever `current` and `prev` are. -/
def updateProcessStatus (s : Sh) (pid : Int) (status : WaitStatus) : Option Sh :=
  match s.head.find? fun j => (s.job j).hasPid pid with
  | none => none
  | some cur =>
      let s := recordStatus s cur pid status
      if (s.job cur).terminated then
        some { s with
          current := if s.current = some cur then nextJob s.head cur else s.current
          head := s.head.erase cur }
      else if (s.job cur).stopped then some { s with current := some cur }
      else some s

/-- `reap`, given what `waitpid(-1, &status, WNOHANG)` returns until it returns 0 or -1. -/
def reap (s : Sh) : List (Int × Event) → Option Sh
  | [] => some s
  | (pid, e) :: rest =>
      (updateProcessStatus { s with child := Function.update s.child pid none } pid e.status).bind
        fun s => reap s rest

/-- The child `waitpid(pid, ..)` is about, and what is reported of it. -/
def Reports.answer (report : Reports) (pid : Int) (left : Nat) : Int × Event :=
  if pid = -1 then report.any left else (pid, report.event pid)

/-- The children and the variable `status` after `waitpid` with `WUNTRACED`, which is about the
child `pid`.  Nobody looks at what the call returns; when there is no such child `status` keeps its
value. -/
def waitpid (child : Int → Option JobId) (pid : Int) (status : WaitStatus) (e : Event) :
    (Int → Option JobId) × WaitStatus :=
  if child pid = none then (child, status)
  else if e.ends then (Function.update child pid none, e.status)
  else (child, e.status)

/-- The loop of `wait_job`: the children and the processes after it. -/
def waitLoop (report : Reports) (child : Int → Option JobId) (status : WaitStatus) :
    List Process → (Int → Option JobId) × List Process
  | [] => (child, [])
  | ps :: rest =>
      let answer := report.answer ps.pid rest.length
      let w := waitpid child answer.1 status answer.2
      let r := waitLoop report w.1 w.2 rest
      (r.1, changeStatus ps w.2 :: r.2)

/-- `head = head->next`. -/
def popHead (s : Sh) : Option Sh :=
  match s.head with
  | [] => none
  | _ :: rest => some { s with head := rest }

/-- `wait_job` after its loop. -/
def finishWait (s : Sh) (jb : JobId) : Option Sh :=
  if (s.job jb).terminated then popHead s
  else if (s.job jb).stopped then some { s with current := some jb }
  else some s

/-- `wait_job`.  `status` is what the uninitialised variable holds. -/
def waitJob (s : Sh) (jb : JobId) (status : WaitStatus) (report : Reports) : Option Sh :=
  let r := waitLoop report s.child status (s.job jb).list
  finishWait { s.setJob jb { s.job jb with list := r.2 } with child := r.1 } jb

/-! ### Launching a job -/

/-- The children after a `fork` for the job; there is a new one unless it has failed. -/
def forked (child : Int → Option JobId) (pid : Int) (jb : JobId) : Int → Option JobId :=
  if pid = -1 then child else Function.update child pid (some jb)

/-- The first iteration of the loop of `exec_job`, in the shell. -/
def newJob (s : Sh) (pid : Int) : Sh :=
  { s with
    job := Function.update s.job s.launched { pgid := pid, list := [{ pid, status := .running }] }
    launched := s.launched + 1
    head := s.launched :: s.head
    child := forked s.child pid s.launched }

/-- The other iterations. -/
def addProcess (s : Sh) (pid : Int) : Option Sh :=
  match s.head with
  | [] => none
  | jb :: _ =>
      some { s.setJob jb { s.job jb with list := { pid, status := .running } :: (s.job jb).list }
        with child := forked s.child pid jb }

/-- The loop of `exec_job`, given what `fork` returns. -/
def launchLoop (s : Sh) (pgid : Int) : List Int → Option Sh
  | [] => some s
  | pid :: rest =>
      if pgid = 0 then launchLoop (newJob s pid) pid rest
      else (addProcess s pid).bind fun s => launchLoop s pgid rest

/-- `exec_job` from the loop on. -/
def execJob (s : Sh) (pids : List Int) (async : Bool) (status : WaitStatus)
    (report : Reports) : Option Sh :=
  (launchLoop s 0 pids).bind fun s' =>
    if async then some s' else waitJob s' s.launched status report

/-! ### Built-ins -/

/-- `get_job`. -/
def getJob (s : Sh) (pgid : Int) : Option JobId := s.head.find? fun j => (s.job j).pgid = pgid

/-- `mark_job_running`; the status it sets is 1. -/
def markJobRunning (s : Sh) (jb : JobId) : Sh :=
  s.setJob jb { s.job jb with list := (s.job jb).list.map fun ps => { ps with status := .stopped } }

def isSpace (c : Char) : Bool := c = ' ' || ('\t' ≤ c && c ≤ '\r')

/-- The value of the digits at the front. -/
def digits (acc : Nat) : CString → Nat
  | [] => acc
  | c :: rest => if c.isDigit then digits (acc * 10 + (c.toNat - '0'.toNat)) rest else acc

/-- What `strtol` makes of a value: `LONG_MIN` or `LONG_MAX` when it does not fit. -/
def clampLong (value : Int) : Int :=
  if value < -9223372036854775808 then -9223372036854775808
  else if 9223372036854775807 < value then 9223372036854775807
  else value

/-- `atoi`: a `long` that is cast to `int`. -/
def atoi (str : CString) : Int :=
  let str := str.dropWhile isSpace
  let value : Int :=
    match str with
    | '-' :: rest => -digits 0 rest
    | '+' :: rest => digits 0 rest
    | _ => digits 0 str
  (clampLong value).bmod 4294967296

/-- The group `resume` signals, if it gets there.  With three words or more `pgid` is not
initialised and holds `garbage`. -/
def resumePgid (s : Sh) (argv : List CString) (garbage : Int) : Option Int :=
  match argv with
  | [_] =>
      match s.current, s.head with
      | some c, _ => some (s.job c).pgid
      | none, j :: _ => some (s.job j).pgid
      | none, [] => none
  | [_, arg] => some (atoi arg)
  | _ => some garbage

/-- `resume`, of type 1 if `fg`. -/
def resume (s : Sh) (argv : List CString) (fg : Bool) (garbage : Int) (killOk : Bool)
    (status : WaitStatus) (report : Reports) : Option Sh :=
  match resumePgid s argv garbage with
  | none => some s
  | some pgid =>
      if killOk then
        match getJob s pgid with
        | none => none
        | some jb =>
            if fg then waitJob (markJobRunning s jb) jb status report
            else some (markJobRunning s jb)
      else some s

/-! ### Runs

One `exec_job` of `main` is `reap` and then `resume`, or `reap` twice and then
`execJob`; for a pipeline of several commands it is `reap` and `execJob`, and for the
other built-ins `reap` alone.
-/

/-- What the shell does, with what the environment answers meanwhile. -/
inductive Op
  | reap (answers : List (Int × Event))
  | execJob (pids : List Int) (async : Bool) (status : WaitStatus) (report : Reports)
  | resume (argv : List CString) (fg : Bool) (garbage : Int) (killOk : Bool)
      (status : WaitStatus) (report : Reports)

/-- The answers are possible: with `WNOHANG` alone `waitpid` reports only that a child has
ended, once, and `fork` fails or returns a pid that no child has. -/
def Op.Enabled (s : Sh) : Op → Prop
  | .reap answers =>
      (answers.map (·.1)).Nodup ∧ ∀ a ∈ answers, s.child a.1 ≠ none ∧ a.2.ends = true
  | .execJob pids _ _ _ =>
      pids ≠ [] ∧ (pids.filter (· ≠ -1)).Nodup ∧
        ∀ pid ∈ pids, pid = -1 ∨ (0 < pid ∧ s.child pid = none)
  | .resume .. => True

instance (s : Sh) (op : Op) : Decidable (op.Enabled s) :=
  match op with
  | .reap answers =>
      inferInstanceAs (Decidable ((answers.map (·.1)).Nodup ∧
        ∀ a ∈ answers, s.child a.1 ≠ none ∧ a.2.ends = true))
  | .execJob pids _ _ _ =>
      inferInstanceAs (Decidable (pids ≠ [] ∧ (pids.filter (· ≠ -1)).Nodup ∧
        ∀ pid ∈ pids, pid = -1 ∨ (0 < pid ∧ s.child pid = none)))
  | .resume .. => inferInstanceAs (Decidable True)

def Op.exec (s : Sh) : Op → Option Sh
  | .reap answers => Shell.reap s answers
  | .execJob pids async status report => Shell.execJob s pids async status report
  | .resume argv fg garbage killOk status report =>
      Shell.resume s argv fg garbage killOk status report

def step (s : Sh) (op : Op) : Option Sh := if op.Enabled s then op.exec s else none

/-- The shell when `main` starts. -/
def start : Sh where
  job _ := { pgid := 0, list := [] }
  launched := 0
  head := []
  current := none
  child _ := none

end Shell
