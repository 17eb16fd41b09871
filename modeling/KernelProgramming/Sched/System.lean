/-
The scheduler as a machine: the operations one CPU can perform, in any order.

An operation is one critical section under the runqueue lock.  `Enabled` is what
its callers guarantee: a forked task gets a `task_struct` nobody uses, only a
freshly forked task is handed to `wake_up_new_task`, the idle task never sleeps
or exits and has no pid a system call could name, and `sched_nice` is in range
because `sched_copy_attr` clamps it and `_sched_setscheduler` takes it from
`static_prio`.
-/
import KernelProgramming.Lib.Runs
import KernelProgramming.Sched.Core

namespace Sched

variable {X : Type}

inductive Op
  | schedFork (child : TaskId)
  | wakeUpNewTask (p : TaskId)
  | tryToWakeUp (p : TaskId) (wakeFlags : Nat)
  | setCurrentState (st : TaskState)
  | schedule (preempt signalPending : Bool)
  | doSchedYield (signalPending : Bool)
  | doTaskDead
  | schedulerTick
  | taskSchedRuntime (p : TaskId)
  | doSchedRtPeriodTimer
  | setUserNice (p : TaskId) (nice : Int)
  | doSetCpusAllowed (p : TaskId)
  | schedSetscheduler (p : TaskId) (attr : SchedAttr) (env : SetschedulerEnv) (user pi : Bool)
  | rtMutexSetprio (p : TaskId) (piTask : Option TaskId)

namespace Op

/-- What the callers of an operation guarantee. -/
def Enabled (s : Sys X) : Op → Prop
  | schedFork child => (s.task child).state = .dead ∧ (s.task child).onRq = false ∧ child ≠ s.idle
  | wakeUpNewTask p => (s.task p).state = .new
  | setCurrentState st =>
      s.curr ≠ s.idle ∧ (st = .running ∨ st = .interruptible ∨ st = .uninterruptible)
  | doTaskDead => s.curr ≠ s.idle
  | setUserNice p _ => p ≠ s.idle
  | doSetCpusAllowed p => p ≠ s.idle
  | schedSetscheduler p attr _ _ _ =>
      p ≠ s.idle ∧ -1 ≤ attr.schedPolicy ∧ -20 ≤ attr.schedNice ∧ attr.schedNice ≤ 19
  | _ => True

instance (s : Sys X) : (op : Op) → Decidable (op.Enabled s)
  | schedFork _ => inferInstanceAs (Decidable (_ ∧ _ ∧ _))
  | wakeUpNewTask _ => inferInstanceAs (Decidable (_ = _))
  | tryToWakeUp _ _ => inferInstanceAs (Decidable True)
  | setCurrentState _ => inferInstanceAs (Decidable (_ ∧ (_ ∨ _ ∨ _)))
  | schedule _ _ => inferInstanceAs (Decidable True)
  | doSchedYield _ => inferInstanceAs (Decidable True)
  | doTaskDead => inferInstanceAs (Decidable (_ ≠ _))
  | schedulerTick => inferInstanceAs (Decidable True)
  | taskSchedRuntime _ => inferInstanceAs (Decidable True)
  | doSchedRtPeriodTimer => inferInstanceAs (Decidable True)
  | setUserNice _ _ => inferInstanceAs (Decidable (_ ≠ _))
  | doSetCpusAllowed _ => inferInstanceAs (Decidable (_ ≠ _))
  | schedSetscheduler _ _ _ _ _ => inferInstanceAs (Decidable (_ ∧ _ ∧ _ ∧ _))
  | rtMutexSetprio _ _ => inferInstanceAs (Decidable True)

/-- The task an operation is about. -/
def subject (s : Sys X) : Op → TaskId
  | schedFork child => child
  | wakeUpNewTask p => p
  | tryToWakeUp p _ => p
  | taskSchedRuntime p => p
  | setUserNice p _ => p
  | doSetCpusAllowed p => p
  | schedSetscheduler p _ _ _ _ => p
  | rtMutexSetprio p _ => p
  | _ => s.curr

/-- Performing an operation. -/
def exec (other : OtherClasses X) (s : Sys X) : Op → Sys X
  | schedFork child => (Sched.schedFork other s child).2
  | wakeUpNewTask p => Sched.wakeUpNewTask other s p
  | tryToWakeUp p wakeFlags => Sched.tryToWakeUp other s p wakeFlags
  | setCurrentState st => s.modify s.curr fun t => { t with state := st }
  | schedule preempt signalPending => Sched.schedule other s preempt signalPending
  | doSchedYield signalPending => Sched.doSchedYield other s signalPending
  | doTaskDead => Sched.doTaskDead other s
  | schedulerTick => Sched.schedulerTick other s
  | taskSchedRuntime p => Sched.taskSchedRuntime other s p
  | doSchedRtPeriodTimer => Sched.doSchedRtPeriodTimer other s
  | setUserNice p nice => Sched.setUserNice other s p nice
  | doSetCpusAllowed p => Sched.doSetCpusAllowed other s p
  | schedSetscheduler p attr env user pi => (Sched.schedSetscheduler other env s p attr user pi).2
  | rtMutexSetprio p piTask => Sched.rtMutexSetprio other s p piTask

end Op

/-- One operation of the machine. -/
def step (other : OtherClasses X) (s : Sys X) (op : Op) : Option (Sys X) :=
  if op.Enabled s then some (op.exec other s) else none

theorem step_eq_some {other : OtherClasses X} {s s' : Sys X} {op : Op}
    (h : step other s op = some s') : op.Enabled s ∧ s' = op.exec other s := by
  unfold step at h
  split at h
  · rename_i hen
    exact ⟨hen, (Option.some.inj h).symm⟩
  · simp at h

/-- A timer interrupt on a CPU where nothing else happens: `scheduler_tick`, and then
`schedule` if the running task has been marked. -/
def timerTick (other : OtherClasses X) (s : Sys X) : Sys X :=
  let s := schedulerTick other s
  if s.needResched then Sched.schedule other s false false else s

/-! ### Single calls

The same state, one `enqueue_task` or `dequeue_task` at a time.  As in
`ttwu_activate` and in `__schedule`, `on_rq` follows the call.  Between two calls the
callers may give a task that is not queued any policy, priority and class they like,
the CPU may switch to another task, and time passes: a running real-time task is
accounted for, and the period timer comes by.
-/

inductive Call
  | enqueueTask (p : TaskId) (flags : QueueFlags)
  | dequeueTask (p : TaskId) (flags : QueueFlags)
  | rewrite (p : TaskId) (t : TaskStruct)
  | switchTo (p : TaskId)
  | updateCurrRt
  | doSchedRtPeriodTimer

namespace Call

/-- A task is enqueued when it is not queued and dequeued when it is; the tasks are those of
the time-sharing, the real-time and the fair class. -/
def Enabled (s : Sys X) : Call → Prop
  | enqueueTask p _ =>
      p ≠ s.idle ∧ (s.task p).onRq = false ∧
        (((s.task p).schedClass = .ts ∧ 100 ≤ (s.task p).prio ∧ (s.task p).prio ≤ 139) ∨
          (s.task p).schedClass = .rt ∨ (s.task p).schedClass = .fair)
  | dequeueTask p _ => p ≠ s.idle ∧ (s.task p).onRq = true
  | rewrite p _ => p ≠ s.idle ∧ (s.task p).onRq = false
  | _ => True

instance (s : Sys X) : (c : Call) → Decidable (c.Enabled s)
  | enqueueTask _ _ => inferInstanceAs (Decidable (_ ∧ _ ∧ ((_ ∧ _ ∧ _) ∨ _ ∨ _)))
  | dequeueTask _ _ => inferInstanceAs (Decidable (_ ∧ _))
  | rewrite _ _ => inferInstanceAs (Decidable (_ ∧ _))
  | switchTo _ => inferInstanceAs (Decidable True)
  | updateCurrRt => inferInstanceAs (Decidable True)
  | doSchedRtPeriodTimer => inferInstanceAs (Decidable True)

def exec (other : OtherClasses X) (s : Sys X) : Call → Sys X
  | enqueueTask p flags => ttwuActivate other s p flags
  | dequeueTask p flags =>
      (Sched.dequeueTask other s p flags).modify p fun t => { t with onRq := false }
  | rewrite p t => s.modify p fun old => { t with onRq := false, rt := old.rt }
  | switchTo p => { s with curr := p }
  | updateCurrRt => Sched.updateCurrRt other s
  | doSchedRtPeriodTimer => Sched.doSchedRtPeriodTimer other s

end Call

/-- One call. -/
def callStep (other : OtherClasses X) (s : Sys X) (c : Call) : Option (Sys X) :=
  if c.Enabled s then some (c.exec other s) else none

theorem callStep_eq_some {other : OtherClasses X} {s s' : Sys X} {c : Call}
    (h : callStep other s c = some s') : c.Enabled s ∧ s' = c.exec other s := by
  unfold callStep at h
  split at h
  · rename_i hen
    exact ⟨hen, (Option.some.inj h).symm⟩
  · simp at h

end Sched
