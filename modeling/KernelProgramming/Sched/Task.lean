/-
The data of the scheduler: tasks, one CPU's runqueue, and the classes whose code
is elsewhere.

The state is the one a single CPU sees with its runqueue lock held, so every
operation is atomic.  Load averages, schedstat counters and the pushable lists of
the SMP balancer are left out: nothing modelled here reads them back.
`TASK_ON_RQ_MIGRATING` does not occur either, since `select_task_rq_ts` never
moves a task and there is one runqueue, which stays in its root domain.

`fair.c`, `deadline.c`, `idle.c` and `stop_task.c` are not part of this tree.
Their hooks are the parameter `OtherClasses`: a hook reads the whole state and may
change the class's own runqueue data, the two counters the core reads back, and
ask for a reschedule.  It has no way to touch a task or another class's lists.

The time that real-time tasks may take is a matter of clocks and of what other CPUs
lend.  It is private data here, and `OtherClasses` says what `rt.c` finds when it
looks at it; the arithmetic is in `Sched/Bandwidth.lean`.
-/
import KernelProgramming.Lib.Levels

namespace Sched

/-- A `struct task_struct *`. -/
abbrev TaskId : Type := Nat

/-- The scheduling classes, highest first. -/
inductive SchedClass
  | stop | dl | rt | ts | fair | idle
  deriving DecidableEq, Repr

/-- `SCHED_NORMAL` to `SCHED_TS`. -/
inductive Policy
  | normal | fifo | rr | batch | idle | deadline | ts
  deriving DecidableEq, Repr

/-- The values of `p->state` that the scheduler itself tells apart. -/
inductive TaskState
  | running | interruptible | uninterruptible | dead | new
  deriving DecidableEq, Repr

/-- The bits of a `{de,en}queue` flags word, under their `ENQUEUE_` names.  On the
dequeue side `wakeup` reads `DEQUEUE_SLEEP` and `restore` reads `DEQUEUE_SAVE`. -/
structure QueueFlags where
  wakeup : Bool := false
  restore : Bool := false
  move : Bool := false
  noclock : Bool := false
  head : Bool := false
  replenish : Bool := false
  deriving DecidableEq, Repr

/-- `struct sched_rt_entity`, without the group pointers; `run_list` is read off
the runqueue. -/
structure SchedRtEntity where
  onRq : Bool
  onList : Bool
  timeSlice : Nat
  timeout : Nat
  deriving DecidableEq, Repr

/-- `struct sched_ts_entity`; `list` is read off the runqueue. -/
structure SchedTsEntity where
  timeSlice : Nat
  deriving DecidableEq, Repr

/-- `struct task_struct`.  `onRq` is `on_rq == TASK_ON_RQ_QUEUED`. -/
structure TaskStruct where
  state : TaskState
  onRq : Bool
  prio : Int
  staticPrio : Int
  normalPrio : Int
  rtPriority : Nat
  schedClass : SchedClass
  rt : SchedRtEntity
  ts : SchedTsEntity
  policy : Policy
  hasMm : Bool
  schedResetOnFork : Bool
  piTopTask : Option TaskId
  deriving DecidableEq, Repr

/-- What `ts.c` must never do: index outside `rq->ts.queue`, reach one of the two
`Invalid priority number` lines, let the unsigned slice wrap, or hand the list
macros a node that is already linked or not linked at all. -/
inductive Fault
  | queueIndex (idx : Int)
  | invalidPriority
  | sliceWrap
  | addLinked (p : TaskId)
  | delUnlinked (p : TaskId)
  deriving DecidableEq, Repr

/-- One CPU's runqueue and all the tasks.  `X` is the private runqueue data of the
classes that are not in this tree. -/
structure Sys (X : Type) where
  task : TaskId → TaskStruct
  curr : TaskId
  idle : TaskId
  stop : Option TaskId
  /-- `TIF_NEED_RESCHED` of `curr`.  `resched_curr` only ever marks `rq->curr` and
  `__schedule` clears the mark before it changes `rq->curr`, so no other task has it. -/
  needResched : Bool
  nrRunning : Nat
  /-- `h_nr_running` of `rq->cfs`. -/
  hNrRunning : Nat
  wakeListEmpty : Bool
  tsQueue : Levels.Queue 40 TaskId
  /-- The two fields of `rq->rt.active`. -/
  rtQueue : Levels.Queue 100 TaskId
  rtBitmap : Fin 100 → Bool
  rtNrRunning : Nat
  rrNrRunning : Nat
  rtQueued : Bool
  rtThrottled : Bool
  /-- `highest_prio.curr` of `rq->rt`. -/
  rtHighestPrio : Int
  priv : X
  faults : List Fault

variable {X : Type}

namespace Sys

/-- Overwrite the fields of one task. -/
def modify (s : Sys X) (p : TaskId) (f : TaskStruct → TaskStruct) : Sys X :=
  { s with task := Function.update s.task p (f (s.task p)) }

/-- Note what has gone wrong. -/
def log (s : Sys X) (fs : List Fault) : Sys X :=
  { s with faults := s.faults ++ fs }

end Sys

/-- What a hook of a class outside this tree may change. -/
structure HookEffect (X : Type) where
  priv : X
  nrRunning : Nat
  hNrRunning : Nat
  resched : Bool

/-- The hooks of `struct sched_class` the core calls, `reweight_task` included. -/
inductive Hook
  | enqueueTask (p : TaskId) (flags : QueueFlags)
  | dequeueTask (p : TaskId) (flags : QueueFlags)
  | yieldTask
  | checkPreemptCurr (p : TaskId) (flags : Nat)
  | putPrevTask (p : TaskId)
  | setCurrTask
  | taskTick (p : TaskId)
  | taskFork (p : TaskId)
  | switchedFrom (p : TaskId)
  | switchedTo (p : TaskId)
  | prioChanged (p : TaskId) (oldprio : Int)
  | updateCurr
  | reweightTask (p : TaskId)

/-- What `update_curr_rt` finds: whether it adds to `rt_time`, that is, time has passed and the
CPU's runtime is limited, and whether `rt_time` is then more than the CPU has and can borrow. -/
structure RtAccount (X : Type) where
  priv : X
  counted : Bool
  exceeded : Bool

/-- What the period timer finds when it comes to the CPU: whether `rt_time` is not 0, and whether
it is less than `rt_runtime` once it has been taken down. -/
structure RtPeriod (X : Type) where
  priv : X
  timed : Bool
  within : Bool

/-- The classes outside this tree, and the clock.  A class is only ever asked for a task of its
own that is on the runqueue; when it has none it answers `NULL` and changes nothing. -/
structure OtherClasses (X : Type) where
  hook : SchedClass → Hook → Sys X → HookEffect X
  pickNextTask : SchedClass → Sys X → TaskId → Option (TaskId × HookEffect X)
  pick_own : ∀ {cls s prev p e}, pickNextTask cls s prev = some (p, e) →
    (s.task p).schedClass = cls ∧ (s.task p).onRq = true
  dlEntityPreempt : Sys X → TaskId → TaskId → Bool
  /-- The variable `sched_rr_timeslice`. -/
  rrTimeslice : Nat
  rtAccount : Sys X → RtAccount X
  rtPeriod : Sys X → RtPeriod X

namespace Sys

/-- Put a hook's changes into the state. -/
def applyHook (s : Sys X) (e : HookEffect X) : Sys X :=
  { s with
    priv := e.priv
    nrRunning := e.nrRunning
    hNrRunning := e.hNrRunning
    needResched := s.needResched || e.resched }

/-- Call a hook of a class outside this tree. -/
def callOther (other : OtherClasses X) (s : Sys X) (cls : SchedClass) (h : Hook) : Sys X :=
  s.applyHook (other.hook cls h s)

def reschedCurr (s : Sys X) : Sys X := { s with needResched := true }

end Sys

/-! ### Policies and priorities -/

def maxUserRtPrio : Int := 100

def maxRtPrio : Int := 100

def niceToPrio (nice : Int) : Int := nice + 120

def prioToNice (prio : Int) : Int := prio - 120

def dlPrio (prio : Int) : Bool := prio < 0

def rtPrio (prio : Int) : Bool := prio < maxRtPrio

@[simp] theorem dlPrio_eq_true {prio : Int} : dlPrio prio = true ↔ prio < 0 := by simp [dlPrio]

@[simp] theorem dlPrio_eq_false {prio : Int} : dlPrio prio = false ↔ 0 ≤ prio := by simp [dlPrio]

@[simp] theorem rtPrio_eq_true {prio : Int} : rtPrio prio = true ↔ prio < 100 :=
  decide_eq_true_iff

@[simp] theorem rtPrio_eq_false {prio : Int} : rtPrio prio = false ↔ 100 ≤ prio :=
  decide_eq_false_iff_not.trans Int.not_lt

namespace Policy

def idlePolicy (policy : Policy) : Bool := policy = .idle

def fairPolicy (policy : Policy) : Bool := policy = .normal || policy = .batch

def rtPolicy (policy : Policy) : Bool := policy = .fifo || policy = .rr

def dlPolicy (policy : Policy) : Bool := policy = .deadline

def tsPolicy (policy : Policy) : Bool := policy = .ts

/-- The policy a number stands for; `none` is what `valid_policy` rejects. -/
def ofInt? : Int → Option Policy
  | 0 => some .normal
  | 1 => some .fifo
  | 2 => some .rr
  | 3 => some .batch
  | 5 => some .idle
  | 6 => some .deadline
  | 10 => some .ts
  | _ => none

end Policy

def taskNice (t : TaskStruct) : Int := prioToNice t.staticPrio

def normalPrio (t : TaskStruct) : Int :=
  if t.policy.dlPolicy then -1
  else if t.policy.rtPolicy then maxRtPrio - 1 - t.rtPriority
  else t.staticPrio

/-! ### The class list -/

namespace SchedClass

/-- The `.next` fields of the six `struct sched_class`. -/
def next : SchedClass → Option SchedClass
  | .stop => some .dl
  | .dl => some .rt
  | .rt => some .ts
  | .ts => some .fair
  | .fair => some .idle
  | .idle => none

/-- `for_each_class`, from `sched_class_highest` down. -/
def forEachClass : List SchedClass := [.stop, .dl, .rt, .ts, .fair, .idle]

example : forEachClass.IsChain fun cls below => cls.next = some below := by decide

end SchedClass

/-! ### Reading a state back -/

namespace Sys

variable (s : Sys X) (p : TaskId) (f : TaskStruct → TaskStruct)
variable (other : OtherClasses X) (cls : SchedClass) (h : Hook)

@[simp] theorem modify_task_self : (s.modify p f).task p = f (s.task p) :=
  Function.update_self ..

theorem modify_task_of_ne {p q : TaskId} (hq : q ≠ p) : (s.modify p f).task q = s.task q :=
  Function.update_of_ne hq ..

@[simp] theorem modify_curr : (s.modify p f).curr = s.curr := rfl
@[simp] theorem modify_idle : (s.modify p f).idle = s.idle := rfl
@[simp] theorem modify_hNrRunning : (s.modify p f).hNrRunning = s.hNrRunning := rfl
@[simp] theorem modify_rtNrRunning : (s.modify p f).rtNrRunning = s.rtNrRunning := rfl

@[simp] theorem log_nil : s.log [] = s := by simp [log]

@[simp] theorem callOther_task : (s.callOther other cls h).task = s.task := rfl
@[simp] theorem callOther_tsQueue : (s.callOther other cls h).tsQueue = s.tsQueue := rfl
@[simp] theorem callOther_rtNrRunning : (s.callOther other cls h).rtNrRunning = s.rtNrRunning := rfl

@[simp] theorem reschedCurr_task : s.reschedCurr.task = s.task := rfl

end Sys

end Sched
