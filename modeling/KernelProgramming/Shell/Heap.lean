/-
`update_process_status` on the pointers of `myshell.c`.

`Shell/Jobs.lean` has the job list as a list and so does not show how a job is found
and taken off.  Here it is links: `next`, and the globals `head` and `current`.  The
processes of a job stay a list, for no link between them is ever changed.

The search has no bound but the end of the list, so it is given a number of
iterations.  Following a null pointer is `none`.
-/
import KernelProgramming.Lib.Fuel
import KernelProgramming.Lib.Links
import KernelProgramming.Shell.Jobs

namespace Shell

/-- The jobs, the globals, and what was written to `stderr`. -/
structure Heap where
  next : JobId → Option JobId
  job : JobId → Job
  head : Option JobId
  current : Option JobId
  stderr : List CString

/-- The variables of `update_process_status`. -/
structure Search where
  terminated : Bool
  stopped : Bool
  found : Bool
  prev : Option JobId
  cur : Option JobId

namespace Heap

/-- `jb->next`. -/
def follow (h : Heap) (jb : Option JobId) : Option (Option JobId) := jb.map h.next

/-- The loop over `cur->list`: the variables and the processes after it. -/
def processLoop (pid : Int) (status : WaitStatus) (w : Search) :
    List Process → Search × List Process
  | [] => (w, [])
  | ps :: rest =>
      let found := w.found || ps.pid = pid
      let ps := if ps.pid = pid then changeStatus ps status else ps
      let w := { w with
        found
        terminated := w.terminated && ps.status = .terminated
        stopped := w.stopped && ps.status = .stopped }
      let r := processLoop pid status w rest
      (r.1, ps :: r.2)

/-- The loop over the jobs. -/
def searchLoop (pid : Int) (status : WaitStatus) : ℕ → Heap → Search → Option (Heap × Search)
  | 0, _, _ => none
  | fuel + 1, h, w =>
      match w.cur with
      | none => some (h, w)
      | some cur =>
          let r := processLoop pid status w (h.job cur).list
          let h := { h with job := Function.update h.job cur { h.job cur with list := r.2 } }
          if r.1.found then some (h, r.1)
          else
            searchLoop pid status fuel h
              { r.1 with prev := some cur, cur := h.next cur, terminated := true, stopped := true }

/-- `if (current == cur) current = cur->next;`. -/
def moveCurrent (h : Heap) (cur : Option JobId) : Option Heap :=
  if h.current = cur then (h.follow cur).map fun jb => { h with current := jb } else some h

/-- `if (prev != NULL) prev->next = cur->next; else head = head->next;`. -/
def unlink (h : Heap) (prev cur : Option JobId) : Option Heap :=
  match prev with
  | some jb => (h.follow cur).map fun jb' => { h with next := Function.update h.next jb jb' }
  | none => (h.follow h.head).map fun jb => { h with head := jb }

/-- `update_process_status` behind its loops. -/
def finishUpdate (h : Heap) (w : Search) : Option Heap :=
  let h :=
    if w.cur = none then { h with stderr := h.stderr ++ ["Your code is incorrect!\n".toList] } else h
  if w.terminated then (h.moveCurrent w.cur).bind fun h => h.unlink w.prev w.cur
  else if w.stopped then some { h with current := w.cur }
  else some h

/-- `update_process_status`. -/
def updateProcessStatus (h : Heap) (pid : Int) (status : WaitStatus) (fuel : ℕ) :
    Option (Option Heap) :=
  (searchLoop pid status fuel h
    { terminated := true, stopped := true, found := false, prev := none, cur := h.head }).map
      fun r => r.1.finishUpdate r.2

/-- These are the jobs on the list. -/
def Lists (h : Heap) (l : List JobId) : Prop := Links.Seg h.next h.head l none

/-- The pids recorded in the jobs. -/
def pids (h : Heap) (l : List JobId) : List Int := l.flatMap fun j => (h.job j).list.map (·.pid)

/-- The heap as a state of the shell. -/
def toSh (h : Heap) (l : List JobId) : Sh where
  job := h.job
  launched := 0
  head := l
  current := h.current
  child _ := none

end Heap

end Shell
