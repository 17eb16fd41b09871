/-
Wake queues, as in `kernel/sched/core.c`.

A wake queue collects tasks to be woken later, off the lock the collector holds.
The tasks are chained through a pointer in their own `task_struct`, which doubles as
the mark that a task is on some queue already; so any number of CPUs, each with a
queue of its own, decide with one `cmpxchg` which of them gets the task.  Every
operation below is one step between which the other CPUs may go on: `wake_q_add`
is the `cmpxchg` and the writes that link the task in, a turn of `wake_up_q` is
unlinking a task and waking it.

`DEFINE_WAKE_Q` is in a header that is not in the tree.  A queue starts with
`WAKE_Q_TAIL` in `first` and `lastp` pointing there, as both functions rely on.
-/
import KernelProgramming.Lib.Links
import KernelProgramming.Lib.Runs

namespace WakeQ

/-- A `struct wake_q_node *` other than `NULL`; `none` is `WAKE_Q_TAIL`. -/
abbrev Link (T : Type) : Type := Option T

/-- What `head->lastp` points to: `head->first`, or the node of a task. -/
inductive Slot (T : Type)
  | first
  | next (t : T)
  deriving DecidableEq

/-- How far the owner of a queue has got. -/
inductive Phase (T : Type)
  /-- Outside the lifetime of the queue. -/
  | idle
  | adding
  /-- In `wake_q_add`, which has grabbed the task. -/
  | linking (t : T)
  /-- At the head of the loop of `wake_up_q`, with its `node`. -/
  | walking (node : Link T)
  /-- Before `wake_up_process`, with the task and the next `node`. -/
  | waking (t : T) (node : Link T)
  deriving DecidableEq

structure WakeQHead (T : Type) where
  first : Link T
  lastp : Slot T
  phase : Phase T

/-- `next` is the `wake_q.next` of every task, with `none` for `NULL`. -/
structure Sys (H T : Type) where
  head : H → WakeQHead T
  next : T → Option (Link T)
  usage : T → Nat
  woken : List T

variable {H T : Type} [DecidableEq H] [DecidableEq T]

def Sys.setHead (s : Sys H T) (h : H) (head : WakeQHead T) : Sys H T :=
  { s with head := Function.update s.head h head }

def Sys.setPhase (s : Sys H T) (h : H) (phase : Phase T) : Sys H T :=
  s.setHead h { s.head h with phase := phase }

def Sys.setNext (s : Sys H T) (t : T) (link : Option (Link T)) : Sys H T :=
  { s with next := Function.update s.next t link }

def getTaskStruct (s : Sys H T) (t : T) : Sys H T :=
  { s with usage := Function.update s.usage t (s.usage t + 1) }

def putTaskStruct (s : Sys H T) (t : T) : Sys H T :=
  { s with usage := Function.update s.usage t (s.usage t - 1) }

def defineWakeQ (s : Sys H T) (h : H) : Sys H T :=
  match (s.head h).phase with
  | .idle => s.setHead h { first := none, lastp := .first, phase := .adding }
  | _ => s

/-- `wake_q_add` up to `get_task_struct`. -/
def wakeQAdd (s : Sys H T) (h : H) (task : T) : Sys H T :=
  match (s.head h).phase with
  | .adding =>
      if (s.next task).isSome then s
      else getTaskStruct ((s.setNext task (some none)).setPhase h (.linking task)) task
  | _ => s

/-- The rest of `wake_q_add`: `*head->lastp = node` and `head->lastp = &node->next`. -/
def link (s : Sys H T) (h : H) : Sys H T :=
  match (s.head h).phase with
  | .linking t =>
      match (s.head h).lastp with
      | .first => s.setHead h { first := some t, lastp := .next t, phase := .adding }
      | .next u =>
          (s.setNext u (some (some t))).setHead h
            { s.head h with lastp := .next t, phase := .adding }
  | _ => s

def wakeUpQ (s : Sys H T) (h : H) : Sys H T :=
  match (s.head h).phase with
  | .adding => s.setPhase h (.walking (s.head h).first)
  | _ => s

/--
The loop test of `wake_up_q` and the unlinking of a task.  `none` is a `NULL` link,
which the loop would follow.
-/
def pop (s : Sys H T) (h : H) : Option (Sys H T) :=
  match (s.head h).phase with
  | .walking none => some (s.setPhase h .idle)
  | .walking (some t) =>
      (s.next t).map fun node => (s.setNext t none).setPhase h (.waking t node)
  | _ => some s

/-- The end of a turn of `wake_up_q`. -/
def wakeUpProcess (s : Sys H T) (h : H) : Sys H T :=
  match (s.head h).phase with
  | .waking t node =>
      putTaskStruct { s.setPhase h (.walking node) with woken := s.woken ++ [t] } t
  | _ => s

inductive Op (H T : Type)
  | defineWakeQ (h : H)
  | wakeQAdd (h : H) (task : T)
  | link (h : H)
  | wakeUpQ (h : H)
  | pop (h : H)
  | wakeUpProcess (h : H)

/-- One step of one CPU; a step the owner of the queue is not at does nothing. -/
def step (s : Sys H T) : Op H T → Option (Sys H T)
  | .defineWakeQ h => some (defineWakeQ s h)
  | .wakeQAdd h task => some (wakeQAdd s h task)
  | .link h => some (link s h)
  | .wakeUpQ h => some (wakeUpQ s h)
  | .pop h => pop s h
  | .wakeUpProcess h => some (wakeUpProcess s h)

def run (s : Sys H T) (ops : List (Op H T)) : Option (Sys H T) := Runs.run step s ops

/-- No queue is in use and no task is on one. -/
def start (usage : T → Nat) : Sys H T where
  head _ := { first := none, lastp := .first, phase := .idle }
  next _ := none
  usage := usage
  woken := []

/-! ### What it is for

A queue is a list of tasks, and a task is on one queue at most.
-/

inductive Stage (T : Type)
  | idle
  | adding
  | linking
  | walking
  | waking (t : T)
  deriving DecidableEq

structure Queues (H T : Type) where
  pending : H → List T
  stage : H → Stage T
  woken : List T

namespace Queues

def set (q : Queues H T) (h : H) (pending : List T) (stage : Stage T) : Queues H T :=
  { q with
    pending := Function.update q.pending h pending
    stage := Function.update q.stage h stage }

/-- The task waits on some queue. -/
def Pending (q : Queues H T) (t : T) : Prop := ∃ h, t ∈ q.pending h

open Classical in
/-- The operations on lists. -/
noncomputable def step (q : Queues H T) : Op H T → Queues H T
  | .defineWakeQ h => if q.stage h = .idle then q.set h [] .adding else q
  | .wakeQAdd h task =>
      if q.stage h = .adding ∧ ¬q.Pending task then q.set h (q.pending h ++ [task]) .linking
      else q
  | .link h => if q.stage h = .linking then q.set h (q.pending h) .adding else q
  | .wakeUpQ h => if q.stage h = .adding then q.set h (q.pending h) .walking else q
  | .pop h =>
      if q.stage h = .walking then
        match q.pending h with
        | [] => q.set h [] .idle
        | t :: rest => q.set h rest (.waking t)
      else q
  | .wakeUpProcess h =>
      match q.stage h with
      | .waking t => { q.set h (q.pending h) .walking with woken := q.woken ++ [t] }
      | _ => q

def start : Queues H T where
  pending _ := []
  stage _ := .idle
  woken := []

end Queues

end WakeQ
