/-
The real-time class, as in `kernel/sched/rt.c`, without task groups.

With no groups `for_each_sched_rt_entity` visits the task's own entity and stops,
and `group_rt_rq` is `NULL`.  With one runqueue there is nowhere to push a task to
or pull it from, so the balancing calls and the pushable lists are left out, and
`check_preempt_equal_prio` returns before it does anything: `cpupri_find` has no
other CPU to offer.

A CPU whose real-time tasks have used up their time is throttled: its `rt_rq` is
taken off the runqueue, with all its tasks on its lists, until the period timer
puts it back.
-/
import KernelProgramming.Sched.Task

namespace Sched

variable {X : Type}

/-- The list `array->queue + prio`, when there is one. -/
def rtLevel? (prio : Int) : Option (Fin 100) :=
  if h : 0 ≤ prio ∧ prio < 100 then some ⟨prio.toNat, by omega⟩ else none

/-- `sched_find_first_bit`; bit `MAX_RT_PRIO` is the delimiter and always set. -/
def schedFindFirstBit (bitmap : Fin 100 → Bool) : Int :=
  match (List.finRange 100).find? bitmap with
  | some i => i.val
  | none => maxRtPrio

def addNrRunning (s : Sys X) (count : Nat) : Sys X :=
  { s with nrRunning := s.nrRunning + count }

def subNrRunning (s : Sys X) (count : Nat) : Sys X :=
  { s with nrRunning := s.nrRunning - count }

def dequeueTopRtRq (s : Sys X) : Sys X :=
  if !s.rtQueued then s
  else { subNrRunning s s.rtNrRunning with rtQueued := false }

def enqueueTopRtRq (s : Sys X) : Sys X :=
  if s.rtQueued then s
  else if s.rtThrottled then s
  else if s.rtNrRunning ≠ 0 then { addNrRunning s s.rtNrRunning with rtQueued := true }
  else s

/-! ### Throttling -/

def schedRtRqEnqueue (s : Sys X) : Sys X :=
  if s.rtNrRunning = 0 then s else (enqueueTopRtRq s).reschedCurr

/-- `sched_rt_runtime_exceeded`; `exceeded` is what it finds of a CPU that is not throttled. -/
def schedRtRuntimeExceeded (s : Sys X) (exceeded : Bool) : Bool × Sys X :=
  if s.rtThrottled then (true, s)
  else if exceeded then (true, dequeueTopRtRq { s with rtThrottled := true })
  else (false, s)

def updateCurrRt (other : OtherClasses X) (s : Sys X) : Sys X :=
  if (s.task s.curr).schedClass ≠ .rt then s
  else
    let account := other.rtAccount s
    let s := { s with priv := account.priv }
    if !account.counted then s
    else
      let r := schedRtRuntimeExceeded s account.exceeded
      if r.1 then r.2.reschedCurr else r.2

/-- The turn of the loop of `do_sched_rt_period_timer` that this CPU gets. -/
def doSchedRtPeriodTimer (other : OtherClasses X) (s : Sys X) : Sys X :=
  let period := other.rtPeriod s
  let s := { s with priv := period.priv }
  if period.timed then
    if s.rtThrottled ∧ period.within then schedRtRqEnqueue { s with rtThrottled := false } else s
  else if s.rtThrottled then s
  else schedRtRqEnqueue s

/-! ### The lists -/

def incRtPrio (s : Sys X) (prio : Int) : Sys X :=
  if prio < s.rtHighestPrio then { s with rtHighestPrio := prio } else s

def decRtPrio (s : Sys X) (prio : Int) : Sys X :=
  if s.rtNrRunning ≠ 0 then
    if prio = s.rtHighestPrio then { s with rtHighestPrio := schedFindFirstBit s.rtBitmap }
    else s
  else { s with rtHighestPrio := maxRtPrio }

def rtSeRrNrRunning (t : TaskStruct) : Nat := if t.policy = .rr then 1 else 0

def incRtTasks (s : Sys X) (p : TaskId) : Sys X :=
  incRtPrio
    { s with
      rtNrRunning := s.rtNrRunning + 1
      rrNrRunning := s.rrNrRunning + rtSeRrNrRunning (s.task p) }
    (s.task p).prio

def decRtTasks (s : Sys X) (p : TaskId) : Sys X :=
  decRtPrio
    { s with
      rtNrRunning := s.rtNrRunning - 1
      rrNrRunning := s.rrNrRunning - rtSeRrNrRunning (s.task p) }
    (s.task p).prio

def moveEntity (flags : QueueFlags) : Bool := !(flags.restore && !flags.move)

def delistRtEntity (s : Sys X) (p : TaskId) : Sys X :=
  let queue := Levels.del s.rtQueue p
  let bitmap :=
    match rtLevel? (s.task p).prio with
    | some i => if queue i = [] then Function.update s.rtBitmap i false else s.rtBitmap
    | none => s.rtBitmap
  { s with rtQueue := queue, rtBitmap := bitmap }.modify p
    fun t => { t with rt := { t.rt with onList := false } }

/-- The linking half of `__enqueue_rt_entity`. -/
def enlistRtEntity (s : Sys X) (p : TaskId) (flags : QueueFlags) : Sys X :=
  match rtLevel? (s.task p).prio with
  | none => s
  | some i =>
      { s with
        rtQueue :=
          if flags.head then Levels.addHead s.rtQueue i p else Levels.addTail s.rtQueue i p
        rtBitmap := Function.update s.rtBitmap i true }.modify p
        fun t => { t with rt := { t.rt with onList := true } }

def enqueueRtEntityOnce (s : Sys X) (p : TaskId) (flags : QueueFlags) : Sys X :=
  let s := if moveEntity flags then enlistRtEntity s p flags else s
  incRtTasks (s.modify p fun t => { t with rt := { t.rt with onRq := true } }) p

def dequeueRtEntityOnce (s : Sys X) (p : TaskId) (flags : QueueFlags) : Sys X :=
  let s := if moveEntity flags then delistRtEntity s p else s
  decRtTasks (s.modify p fun t => { t with rt := { t.rt with onRq := false } }) p

def dequeueRtStack (s : Sys X) (p : TaskId) (flags : QueueFlags) : Sys X :=
  let s := dequeueTopRtRq s
  if (s.task p).rt.onRq then dequeueRtEntityOnce s p flags else s

def enqueueRtEntity (s : Sys X) (p : TaskId) (flags : QueueFlags) : Sys X :=
  enqueueTopRtRq (enqueueRtEntityOnce (dequeueRtStack s p flags) p flags)

def dequeueRtEntity (s : Sys X) (p : TaskId) (flags : QueueFlags) : Sys X :=
  enqueueTopRtRq (dequeueRtStack s p flags)

def enqueueTaskRt (s : Sys X) (p : TaskId) (flags : QueueFlags) : Sys X :=
  let s :=
    if flags.wakeup then s.modify p fun t => { t with rt := { t.rt with timeout := 0 } } else s
  enqueueRtEntity s p flags

def dequeueTaskRt (other : OtherClasses X) (s : Sys X) (p : TaskId) (flags : QueueFlags) :
    Sys X :=
  dequeueRtEntity (updateCurrRt other s) p flags

/-- `requeue_task_rt` with `head == 0`. -/
def requeueTaskRt (s : Sys X) (p : TaskId) : Sys X :=
  if (s.task p).rt.onRq then
    match rtLevel? (s.task p).prio with
    | none => s
    | some i => { s with rtQueue := Levels.moveTail s.rtQueue i p }
  else s

def yieldTaskRt (s : Sys X) : Sys X := requeueTaskRt s s.curr

def checkPreemptCurrRt (s : Sys X) (p : TaskId) : Sys X :=
  if (s.task p).prio < (s.task s.curr).prio then s.reschedCurr else s

/-- `_pick_next_task_rt`; `none` is a `BUG_ON` of it or of `pick_next_rt_entity`. -/
def pickNextRtEntity (s : Sys X) : Option TaskId :=
  match rtLevel? (schedFindFirstBit s.rtBitmap) with
  | none => none
  | some i => (s.rtQueue i).head?

/-- `pick_next_task_rt`, and the state it leaves but for the `put_prev_task` in front of
`_pick_next_task_rt`. -/
def pickNextTaskRt (other : OtherClasses X) (s : Sys X) (prev : TaskId) : Option TaskId × Sys X :=
  let s := if (s.task prev).schedClass = .rt then updateCurrRt other s else s
  (if !s.rtQueued then none else pickNextRtEntity s, s)

/-- `task_tick_rt`, without the `RLIMIT_RTTIME` watchdog. -/
def taskTickRt (other : OtherClasses X) (s : Sys X) (p : TaskId) : Sys X :=
  let s := updateCurrRt other s
  if (s.task p).policy ≠ .rr then s
  else
    let left := ((s.task p).rt.timeSlice + (2 ^ 32 - 1)) % 2 ^ 32
    let s := s.modify p fun t => { t with rt := { t.rt with timeSlice := left } }
    if left ≠ 0 then s
    else
      let s := s.modify p fun t => { t with rt := { t.rt with timeSlice := other.rrTimeslice } }
      if ∃ i, p ∈ s.rtQueue i ∧ 2 ≤ (s.rtQueue i).length then (requeueTaskRt s p).reschedCurr
      else s

def switchedToRt (s : Sys X) (p : TaskId) : Sys X :=
  if (s.task p).onRq ∧ s.curr ≠ p ∧ (s.task p).prio < (s.task s.curr).prio then s.reschedCurr
  else s

def prioChangedRt (s : Sys X) (p : TaskId) (_oldprio : Int) : Sys X :=
  if !(s.task p).onRq then s
  else if s.curr = p then
    if (s.task p).prio > s.rtHighestPrio then s.reschedCurr else s
  else if (s.task p).prio < (s.task s.curr).prio then s.reschedCurr
  else s

end Sched
