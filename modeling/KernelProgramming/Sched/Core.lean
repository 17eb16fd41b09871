/-
The scheduler core, as in `kernel/sched/core.c`: dispatch over the classes, fork,
wakeup, the tick, `__schedule`, and the three places that change how a task is
scheduled.

A definition has the name of the C function it embeds, in camel case and without
leading underscores; `__sched_setscheduler`, `__setscheduler` and
`__setscheduler_params` become `schedSetscheduler`, `setscheduler` and
`setschedulerParams`.
-/
import KernelProgramming.Sched.Ts
import KernelProgramming.Sched.Rt

namespace Sched

variable {X : Type} (other : OtherClasses X)

/-! ### Calling a class -/

def enqueueTask (s : Sys X) (p : TaskId) (flags : QueueFlags) : Sys X :=
  match (s.task p).schedClass with
  | .ts => enqueueTaskTs s p flags
  | .rt => enqueueTaskRt s p flags
  | cls => s.callOther other cls (.enqueueTask p flags)

def dequeueTask (s : Sys X) (p : TaskId) (flags : QueueFlags) : Sys X :=
  match (s.task p).schedClass with
  | .ts => dequeueTaskTs s p
  | .rt => dequeueTaskRt other s p flags
  | cls => s.callOther other cls (.dequeueTask p flags)

/-- `put_prev_task_ts` is empty. -/
def putPrevTask (s : Sys X) (prev : TaskId) : Sys X :=
  match (s.task prev).schedClass with
  | .ts => s
  | .rt => updateCurrRt other s
  | cls => s.callOther other cls (.putPrevTask prev)

/-- `set_curr_task_ts` is empty and `set_curr_task_rt` only looks at the clock. -/
def setCurrTask (s : Sys X) (p : TaskId) : Sys X :=
  match (s.task p).schedClass with
  | .ts => s
  | .rt => s
  | cls => s.callOther other cls .setCurrTask

def yieldTask (s : Sys X) : Sys X :=
  match (s.task s.curr).schedClass with
  | .ts => yieldTaskTs s
  | .rt => yieldTaskRt s
  | cls => s.callOther other cls .yieldTask

def taskTick (s : Sys X) (p : TaskId) : Sys X :=
  match (s.task p).schedClass with
  | .ts => taskTickTs s p
  | .rt => taskTickRt other s p
  | cls => s.callOther other cls (.taskTick p)

/-- `update_curr_ts` is empty. -/
def updateCurr (s : Sys X) (p : TaskId) : Sys X :=
  match (s.task p).schedClass with
  | .ts => s
  | .rt => updateCurrRt other s
  | cls => s.callOther other cls .updateCurr

def switchedFrom (s : Sys X) (prevClass : SchedClass) (p : TaskId) : Sys X :=
  match prevClass with
  | .ts => s
  | .rt => s
  | cls => s.callOther other cls (.switchedFrom p)

def switchedTo (s : Sys X) (p : TaskId) : Sys X :=
  match (s.task p).schedClass with
  | .ts => switchedToTs s p
  | .rt => switchedToRt s p
  | cls => s.callOther other cls (.switchedTo p)

def prioChanged (s : Sys X) (p : TaskId) (oldprio : Int) : Sys X :=
  match (s.task p).schedClass with
  | .ts => prioChangedTs s p oldprio
  | .rt => prioChangedRt s p oldprio
  | cls => s.callOther other cls (.prioChanged p oldprio)

def checkClassChanged (s : Sys X) (p : TaskId) (prevClass : SchedClass) (oldprio : Int) :
    Sys X :=
  if prevClass ≠ (s.task p).schedClass then switchedTo other (switchedFrom other s prevClass p) p
  else if oldprio ≠ (s.task p).prio ∨ dlPrio (s.task p).prio then prioChanged other s p oldprio
  else s

/-- The `for_each_class` loop of `check_preempt_curr`: is `p` found before `curr`? -/
def preempts (curr p : SchedClass) : List SchedClass → Bool
  | [] => false
  | cls :: rest => if cls = curr then false else if cls = p then true else preempts curr p rest

def checkPreemptCurr (s : Sys X) (p : TaskId) (flags : Nat) : Sys X :=
  if (s.task p).schedClass = (s.task s.curr).schedClass then
    match (s.task s.curr).schedClass with
    | .ts => checkPreemptCurrTs s p
    | .rt => checkPreemptCurrRt s p
    | cls => s.callOther other cls (.checkPreemptCurr p flags)
  else if preempts (s.task s.curr).schedClass (s.task p).schedClass SchedClass.forEachClass then
    s.reschedCurr
  else s

/-- `reweight_task` is called for fair tasks that are not `SCHED_IDLE`; the weights
themselves belong to `fair.c`. -/
def setLoadWeight (s : Sys X) (p : TaskId) (updateLoad : Bool) : Sys X :=
  if (s.task p).policy.idlePolicy then s
  else if updateLoad ∧ (s.task p).schedClass = .fair then
    s.callOther other .fair (.reweightTask p)
  else s

/-! ### Picking the next task -/

/-- The state when a class has answered: it owes `put_prev_task` to `prev` if it has a task. -/
def putPrevIf (s : Sys X) (prev : TaskId) (answer : Option TaskId) : Option TaskId × Sys X :=
  (answer, if answer = none then s else putPrevTask other s prev)

/-- `class->pick_next_task`: the task, and the state it leaves. -/
def pickClass (s : Sys X) (prev : TaskId) (cls : SchedClass) : Option TaskId × Sys X :=
  match cls with
  | .ts => putPrevIf other s prev (pickNextTaskTs s)
  | .rt =>
      let r := pickNextTaskRt other s prev
      putPrevIf other r.2 prev r.1
  | .idle => putPrevIf other s prev (some s.idle)
  | cls =>
      match other.pickNextTask cls s prev with
      | none => (none, s)
      | some (p, e) => (some p, s.applyHook e)

/-- The plain `for_each_class` loop: the first class that has a task. -/
def classWalk (s : Sys X) (prev : TaskId) : List SchedClass → Option (TaskId × Sys X)
  | [] => none
  | cls :: rest =>
      match pickClass other s prev cls with
      | (some p, s) => some (p, s)
      | (none, s) => classWalk s prev rest

/-- The shortcut asks the fair class and then the idle class.  `none` is the `BUG()` at the end;
no class answers `RETRY_TASK`, since with one runqueue none of them drops the lock. -/
def pickNextTask (s : Sys X) (prev : TaskId) : Option (TaskId × Sys X) :=
  if ((s.task prev).schedClass = .idle ∨ (s.task prev).schedClass = .fair) ∧
      s.nrRunning = s.hNrRunning then
    classWalk other s prev [.fair, .idle]
  else classWalk other s prev SchedClass.forEachClass

/-- The branch of `__schedule` that takes a sleeping `prev` off the runqueue. -/
def deactivatePrev (s : Sys X) (preempt signalPending : Bool) : Sys X :=
  if !preempt ∧ (s.task s.curr).state ≠ .running then
    if signalPending then s.modify s.curr fun t => { t with state := .running }
    else
      (dequeueTask other s s.curr { wakeup := true, noclock := true }).modify s.curr
        fun t => { t with onRq := false }
  else s

/-- `__schedule`, without the branch that wakes another worker when a workqueue worker goes to
sleep.  `signalPending` is what `signal_pending_state` answers for `prev`. -/
def schedule (s : Sys X) (preempt signalPending : Bool) : Sys X :=
  let s := deactivatePrev other s preempt signalPending
  match pickNextTask other s s.curr with
  | none => s
  | some (next, s) => { s with needResched := false, curr := next }

def doSchedYield (s : Sys X) (signalPending : Bool) : Sys X :=
  schedule other (yieldTask other s) false signalPending

def doTaskDead (s : Sys X) : Sys X :=
  schedule other (s.modify s.curr fun t => { t with state := .dead }) false false

def schedulerTick (s : Sys X) : Sys X := taskTick other s s.curr

/-- `task_sched_runtime`, without the runtime it returns. -/
def taskSchedRuntime (s : Sys X) (p : TaskId) : Sys X :=
  if s.curr = p ∧ (s.task p).onRq then updateCurr other s p else s

/-- `idle_cpu`. -/
def idleCpu (s : Sys X) : Nat :=
  if s.curr ≠ s.idle then 0
  else if s.nrRunning ≠ 0 then 0
  else if !s.wakeListEmpty then 0
  else 1

/-! ### Waking up -/

def ttwuActivate (s : Sys X) (p : TaskId) (enFlags : QueueFlags) : Sys X :=
  (enqueueTask other s p enFlags).modify p fun t => { t with onRq := true }

def ttwuDoWakeup (s : Sys X) (p : TaskId) (wakeFlags : Nat) : Sys X :=
  (checkPreemptCurr other s p wakeFlags).modify p fun t => { t with state := .running }

def ttwuDoActivate (s : Sys X) (p : TaskId) (wakeFlags : Nat) : Sys X :=
  ttwuDoWakeup other (ttwuActivate other s p { wakeup := true, noclock := true }) p wakeFlags

/-- `try_to_wake_up` with `TASK_NORMAL`. -/
def tryToWakeUp (s : Sys X) (p : TaskId) (wakeFlags : Nat) : Sys X :=
  if (s.task p).state ≠ .interruptible ∧ (s.task p).state ≠ .uninterruptible then s
  else if (s.task p).onRq then ttwuDoWakeup other s p wakeFlags
  else ttwuDoActivate other s p wakeFlags

/-! ### Fork -/

/-- `__sched_fork`. -/
def schedForkBasic (t : TaskStruct) : TaskStruct :=
  { t with
    onRq := false
    ts := { timeSlice := 12 }
    rt := { onRq := false, onList := false, timeSlice := other.rrTimeslice, timeout := 0 } }

/-- The `sched_reset_on_fork` block of `sched_fork`. -/
def resetOnFork (t : TaskStruct) : TaskStruct :=
  if !t.schedResetOnFork then t
  else
    let t :=
      if t.policy.dlPolicy ∨ t.policy.rtPolicy then
        { t with policy := .normal, staticPrio := niceToPrio 0, rtPriority := 0 }
      else if prioToNice t.staticPrio < 0 then { t with staticPrio := niceToPrio 0 }
      else t
    { t with prio := t.staticPrio, normalPrio := t.staticPrio, schedResetOnFork := false }

/-- The class `sched_fork` and `__setscheduler` choose for a task that is not of the
deadline class. -/
def classOf (prio : Int) (policy : Policy) : SchedClass :=
  if rtPrio prio then .rt else if policy.tsPolicy then .ts else .fair

/-- The new task_struct up to the choice of the class: `dup_task_struct` copies the
caller's and `rt_mutex_init_task` clears the donor. -/
def forkedTask (cur : TaskStruct) : TaskStruct :=
  resetOnFork
    { schedForkBasic other { cur with piTopTask := none } with
      state := .new
      prio := cur.normalPrio }

/-- `sched_fork` for a `child` of the running task; on `-EAGAIN` there is no child. -/
def schedFork (s : Sys X) (child : TaskId) : Int × Sys X :=
  let t := forkedTask other (s.task s.curr)
  if dlPrio t.prio then (-11, s)
  else
    let s := s.modify child fun _ => { t with schedClass := classOf t.prio t.policy }
    match (s.task child).schedClass with
    | .ts => (0, s)
    | .rt => (0, s)
    | cls => (0, s.callOther other cls (.taskFork child))

def wakeUpNewTask (s : Sys X) (p : TaskId) : Sys X :=
  let s := s.modify p fun t => { t with state := .running }
  let s := (enqueueTask other s p { noclock := true }).modify p fun t => { t with onRq := true }
  -- 2 is `WF_FORK`
  checkPreemptCurr other s p 2

/-! ### Changing how a task is scheduled

`set_user_nice`, `do_set_cpus_allowed`, `__sched_setscheduler` and
`rt_mutex_setprio` all take the task off its queue, change it and put it back.
-/

/-- `if (queued) dequeue_task(...); if (running) put_prev_task(...);` -/
def takeOff (s : Sys X) (p : TaskId) (flags : QueueFlags) : Sys X :=
  let s' := if (s.task p).onRq then dequeueTask other s p flags else s
  if s.curr = p then putPrevTask other s' p else s'

/-- `if (queued) enqueue_task(...);` -/
def enqueueIf (s : Sys X) (p : TaskId) (queued : Bool) (flags : QueueFlags) : Sys X :=
  if queued then enqueueTask other s p flags else s

/-- `if (running) set_curr_task(...);` -/
def setCurrIf (s : Sys X) (p : TaskId) (running : Bool) : Sys X :=
  if running then setCurrTask other s p else s

/-- `p->prio = effective_prio(p)`, which also stores `normal_prio`. -/
def effectivePrio (t : TaskStruct) : TaskStruct :=
  { t with
    normalPrio := normalPrio t
    prio := if !rtPrio t.prio then normalPrio t else t.prio }

def setUserNice (s : Sys X) (p : TaskId) (nice : Int) : Sys X :=
  if taskNice (s.task p) = nice ∨ nice < -20 ∨ nice > 19 then s
  else if (s.task p).policy.dlPolicy ∨ (s.task p).policy.rtPolicy then
    s.modify p fun t => { t with staticPrio := niceToPrio nice }
  else
    let queued := (s.task p).onRq
    let running := s.curr = p
    let oldPrio := (s.task p).prio
    let s := takeOff other s p { restore := true, noclock := true }
    let s := s.modify p fun t => { t with staticPrio := niceToPrio nice }
    let s := (setLoadWeight other s p true).modify p effectivePrio
    let delta := (s.task p).prio - oldPrio
    let s := enqueueIf other s p queued { restore := true, noclock := true }
    let s := if queued ∧ (delta < 0 ∨ (delta > 0 ∧ running)) then s.reschedCurr else s
    setCurrIf other s p running

/-- `do_set_cpus_allowed`; the mask itself is not modelled. -/
def doSetCpusAllowed (s : Sys X) (p : TaskId) : Sys X :=
  let queued := (s.task p).onRq
  let running := s.curr = p
  let s := takeOff other s p { restore := true, noclock := true }
  let s := enqueueIf other s p queued { restore := true, noclock := true }
  setCurrIf other s p running

/-- `__rt_effective_prio`. -/
def rtEffectivePrioOf (s : Sys X) (piTask : Option TaskId) (prio : Int) : Int :=
  match piTask with
  | some d => min prio (s.task d).prio
  | none => prio

/-- `rt_effective_prio`; `rt_mutex_get_top_task` reads `p->pi_top_task`. -/
def rtEffectivePrio (s : Sys X) (p : TaskId) (prio : Int) : Int :=
  rtEffectivePrioOf s (s.task p).piTopTask prio

/-- The class `rt_mutex_setprio` chooses. -/
def piClassOf (prio : Int) : SchedClass :=
  if dlPrio prio then .dl else if rtPrio prio then .rt else .fair

/-- Whether a boost to a deadline priority sets `ENQUEUE_REPLENISH`. -/
def piReplenish (s : Sys X) (p : TaskId) (piTask : Option TaskId) : Bool :=
  match piTask with
  | some d =>
      !dlPrio (s.task p).normalPrio || (dlPrio (s.task d).prio && other.dlEntityPreempt s d p)
  | none => !dlPrio (s.task p).normalPrio

def rtMutexSetprio (s : Sys X) (p : TaskId) (piTask : Option TaskId) : Sys X :=
  let prio := rtEffectivePrioOf s piTask (s.task p).normalPrio
  if (s.task p).piTopTask = piTask ∧ prio = (s.task p).prio ∧ !dlPrio prio then s
  else
    let s := s.modify p fun t => { t with piTopTask := piTask }
    if prio = (s.task p).prio ∧ !dlPrio prio then s
    else if p = s.idle then s
    else
      let oldprio := (s.task p).prio
      let prevClass := (s.task p).schedClass
      let queued := (s.task p).onRq
      let running := s.curr = p
      let flags : QueueFlags := { restore := true, move := oldprio ≠ prio, noclock := true }
      let s := takeOff other s p flags
      let flags :=
        if dlPrio prio then { flags with replenish := piReplenish other s p piTask }
        else if rtPrio prio then { flags with head := oldprio < prio }
        else flags
      let s := s.modify p fun t =>
        { t with
          schedClass := piClassOf prio
          prio := prio
          rt := if !rtPrio prio ∧ rtPrio oldprio then { t.rt with timeout := 0 } else t.rt }
      let s := enqueueIf other s p queued flags
      let s := setCurrIf other s p running
      checkClassChanged other s p prevClass oldprio

/-! ### `sched_setscheduler` -/

/-- `struct sched_attr`.  Of `sched_flags`, the reset-on-fork bit, the
`SCHED_FLAG_SUGOV` bit, and whether any bit is set that is not known at all. -/
structure SchedAttr where
  schedPolicy : Int
  schedNice : Int
  schedPriority : Nat
  flagResetOnFork : Bool
  flagSugov : Bool
  flagUnknown : Bool
  deriving DecidableEq, Repr

/-- What the rest of the kernel answers while `__sched_setscheduler` checks a request:
capabilities, limits, owners, the security module, and the deadline class. -/
structure SetschedulerEnv where
  capSysNice : Bool
  canNice : Int → Bool
  rlimRtprio : Nat
  sameOwner : Bool
  securityErr : Int
  checkparamDl : Bool
  dlParamChanged : Bool
  dlBandwidthOk : Bool
  dlOverflow : Bool

/-- What the checks of `__sched_setscheduler` come to. -/
inductive SetschedulerVerdict
  | fail (err : Int)
  | unchanged
  | change
  deriving DecidableEq, Repr

/-- The permission checks of an unprivileged caller. -/
def setschedulerDenied (env : SetschedulerEnv) (t : TaskStruct) (attr : SchedAttr)
    (policy : Policy) (resetFork : Bool) : Bool :=
  (policy.fairPolicy && attr.schedNice < taskNice t && !env.canNice attr.schedNice) ||
  (policy.rtPolicy && policy ≠ t.policy && env.rlimRtprio = 0) ||
  (policy.rtPolicy && t.rtPriority < attr.schedPriority && env.rlimRtprio < attr.schedPriority) ||
  policy.dlPolicy ||
  (t.policy.idlePolicy && !policy.idlePolicy && !env.canNice (taskNice t)) ||
  !env.sameOwner ||
  (t.schedResetOnFork && !resetFork)

/-- Whether a request that keeps the policy still changes something. -/
def setschedulerSame (env : SetschedulerEnv) (t : TaskStruct) (attr : SchedAttr)
    (policy : Policy) : Bool :=
  policy = t.policy &&
  !(policy.fairPolicy && attr.schedNice ≠ taskNice t) &&
  !(policy.rtPolicy && attr.schedPriority ≠ t.rtPriority) &&
  !(policy.dlPolicy && env.dlParamChanged)

/-- The checks of `__sched_setscheduler`, in the order it makes them.  The policy cannot
change while they run, so `recheck` is never taken a second time. -/
def setschedulerCheck (env : SetschedulerEnv) (t : TaskStruct) (isStop : Bool)
    (attr : SchedAttr) (policy : Policy) (resetFork user : Bool) : SetschedulerVerdict :=
  if attr.flagUnknown then .fail (-22)
  else if (t.hasMm && maxUserRtPrio - 1 < attr.schedPriority) ||
      (!t.hasMm && maxRtPrio - 1 < attr.schedPriority) then .fail (-22)
  else if policy.dlPolicy && !env.checkparamDl then .fail (-22)
  else if policy.rtPolicy != decide (attr.schedPriority ≠ 0) then .fail (-22)
  else if user && !env.capSysNice && setschedulerDenied env t attr policy resetFork then .fail (-1)
  else if user && attr.flagSugov then .fail (-22)
  else if user && env.securityErr ≠ 0 then .fail env.securityErr
  else if isStop then .fail (-22)
  else if setschedulerSame env t attr policy then .unchanged
  else if user && policy.dlPolicy && !attr.flagSugov && !env.dlBandwidthOk then .fail (-1)
  else if (policy.dlPolicy || dlPrio t.prio) && env.dlOverflow then .fail (-16)
  else .change

/-- `__setscheduler_params`, without the deadline parameters and the load weight. -/
def setschedulerParams (attr : SchedAttr) (policy : Policy) (t : TaskStruct) : TaskStruct :=
  let t :=
    if policy.fairPolicy then
      { t with policy := policy, staticPrio := niceToPrio attr.schedNice }
    else { t with policy := policy }
  let t := { t with rtPriority := attr.schedPriority }
  { t with normalPrio := normalPrio t }

/-- `__setscheduler`. -/
def setscheduler (s : Sys X) (p : TaskId) (attr : SchedAttr) (policy : Policy)
    (keepBoost : Bool) : Sys X :=
  let s := setLoadWeight other (s.modify p (setschedulerParams attr policy)) p true
  let prio :=
    if keepBoost then rtEffectivePrio s p (normalPrio (s.task p)) else normalPrio (s.task p)
  s.modify p fun t =>
    { t with
      prio := prio
      schedClass := if dlPrio prio then .dl else classOf prio t.policy }

/-- The half of `__sched_setscheduler` that makes the change. -/
def setschedulerChange (s : Sys X) (p : TaskId) (attr : SchedAttr) (policy : Policy)
    (resetFork pi : Bool) : Sys X :=
  let newprio : Int := if attr.schedPolicy = 6 then -1 else maxRtPrio - 1 - attr.schedPriority
  let s := s.modify p fun t => { t with schedResetOnFork := resetFork }
  let oldprio := (s.task p).prio
  let queued := (s.task p).onRq
  let running := s.curr = p
  let prevClass := (s.task p).schedClass
  let flags : QueueFlags :=
    { restore := true
      move := !(pi && decide (rtEffectivePrio s p newprio = oldprio))
      noclock := true }
  let s := takeOff other s p flags
  let s := setscheduler other s p attr policy pi
  let s := enqueueIf other s p queued { flags with head := oldprio < (s.task p).prio }
  let s := setCurrIf other s p running
  checkClassChanged other s p prevClass oldprio

/-- `__sched_setscheduler`.  The walk of the PI chain that `rt_mutex_adjust_pi` starts is
further calls of `rt_mutex_setprio`. -/
def schedSetscheduler (env : SetschedulerEnv) (s : Sys X) (p : TaskId) (attr : SchedAttr)
    (user pi : Bool) : Int × Sys X :=
  let policy? : Option Policy :=
    if attr.schedPolicy < 0 then some (s.task p).policy else Policy.ofInt? attr.schedPolicy
  let resetFork :=
    if attr.schedPolicy < 0 then (s.task p).schedResetOnFork else attr.flagResetOnFork
  match policy? with
  | none => (-22, s)
  | some policy =>
      match setschedulerCheck env (s.task p) (s.stop = some p) attr policy resetFork user with
      | .fail err => (err, s)
      | .unchanged => (0, s.modify p fun t => { t with schedResetOnFork := resetFork })
      | .change => (0, setschedulerChange other s p attr policy resetFork pi)

end Sched
