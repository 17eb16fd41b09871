/-
What `resume` does besides changing the jobs.

`resume` of `Shell/Jobs.lean` says what the jobs are afterwards.  Here the same body
also says whom it signals, and for which jobs it calls `mark_job_running` and
`wait_job`: these get what `get_job` returned, which may be a null pointer.

`kill` is the kernel's answer, whether `kill(-pgid, SIGCONT)` succeeds.  It does for
the shell's own group (0), for all processes (1, as the argument is then -1) and for
every group that exists, be it one of the shell's jobs or not.
-/
import KernelProgramming.Shell.Jobs

namespace Shell

/-- What `resume` does: a `kill` that succeeds, and the calls. -/
inductive Call
  | sigcont (pgid : Int)
  | markJobRunning (jb : Option JobId)
  | waitJob (jb : Option JobId)
  deriving DecidableEq, Repr

/-- The part of `resume` that `kill` is followed by, when it succeeds. -/
def resumeJob (s : Sh) (jb : Option JobId) (fg : Bool) (status : WaitStatus)
    (report : Reports) : List Call × Option Sh :=
  match jb with
  | none => ([.markJobRunning none], none)
  | some j =>
      if fg then
        ([.markJobRunning jb, .waitJob jb], waitJob (markJobRunning s j) j status report)
      else ([.markJobRunning jb], some (markJobRunning s j))

/-- `resume`, with what it does. -/
def resumeCalls (s : Sh) (argv : List CString) (fg : Bool) (garbage : Int) (kill : Int → Bool)
    (status : WaitStatus) (report : Reports) : List Call × Option Sh :=
  match resumePgid s argv garbage with
  | none => ([], some s)
  | some pgid =>
      let jb := getJob s pgid
      if kill pgid then
        let r := resumeJob s jb fg status report
        (.sigcont pgid :: r.1, r.2)
      else ([], some s)

end Shell
