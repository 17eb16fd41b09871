/-
The time-sharing class, as in `kernel/sched/ts.c`.

Level `139 - prio` of `rq->ts.queue` holds the tasks of priority `prio`; level 39
is served first.  A task that uses up its slice sinks ten levels, a task that
wakes rises, and both get their new priority from `get_new_prio`.

Two things the C leaves to the hardware are made visible.  An index is an `Int`
until it has been shown to lie inside the array, and an access outside it is noted
as a fault and does nothing.  The slice is an unsigned 32-bit word, so decrementing
zero wraps, and that is noted too.
-/
import KernelProgramming.Sched.Task

namespace Sched

variable {X : Type}

/-- The `type` argument of `get_new_prio`: 0 when the slice has expired, 1 after a
sleep. -/
inductive PrioEvent
  | expire | sleep
  deriving DecidableEq, Repr

/-- `get_new_prio`: the new priority, and what it prints. -/
def getNewPrio (prio : Int) (type : PrioEvent) : Int × List Fault :=
  let idx := 139 - prio
  if idx < 0 ∨ idx > 39 then (139, [.invalidPriority])
  else
    match type with
    | .expire => (139 - (if idx < 10 then 0 else idx - 10), [])
    | .sleep =>
        (139 -
          (if idx < 10 then 30
          else if idx < 20 then 31
          else if idx < 25 then idx + 12
          else if idx < 27 then idx + 11
          else if idx = 27 then 37
          else if idx < 30 then 38
          else 39), [])

/-- `get_num_ticks`: the quantum of a priority, and what it prints. -/
def getNumTicks (prio : Int) : Nat × List Fault :=
  let idx := 139 - prio
  if idx < 0 then (0, [.invalidPriority])
  else if idx < 10 then (16, [])
  else if idx < 20 then (12, [])
  else if idx < 30 then (8, [])
  else if idx < 40 then (4, [])
  else (0, [.invalidPriority])

/-- The list `rq->ts.queue + idx`, when there is one. -/
def tsLevel? (idx : Int) : Option (Fin 40) :=
  if h : 0 ≤ idx ∧ idx < 40 then some ⟨idx.toNat, by omega⟩ else none

def initTsRq : Levels.Queue 40 TaskId := Levels.empty

/-- `list_add_tail(&p->ts.list, rq->ts.queue + idx)`. -/
def tsListAddTail (s : Sys X) (p : TaskId) (idx : Int) : Sys X :=
  match tsLevel? idx with
  | none => s.log [.queueIndex idx]
  | some i =>
      { s.log (if Levels.count s.tsQueue p = 0 then [] else [.addLinked p]) with
        tsQueue := Levels.addTail s.tsQueue i p }

/-- `list_del(&p->ts.list)`. -/
def tsListDel (s : Sys X) (p : TaskId) : Sys X :=
  { s.log (if Levels.count s.tsQueue p = 0 then [.delUnlinked p] else []) with
    tsQueue := Levels.del s.tsQueue p }

/-- `list_move_tail(&p->ts.list, rq->ts.queue + idx)`. -/
def tsListMoveTail (s : Sys X) (p : TaskId) (idx : Int) : Sys X :=
  tsListAddTail (tsListDel s p) p idx

/-- `enqueue_task_ts`.  The level is computed before the wakeup changes `p->prio`. -/
def enqueueTaskTs (s : Sys X) (p : TaskId) (flags : QueueFlags) : Sys X :=
  let idx := 139 - (s.task p).prio
  let s :=
    if flags.wakeup then
      let np := getNewPrio (s.task p).prio .sleep
      (s.log np.2).modify p fun t => { t with prio := np.1 }
    else s
  tsListAddTail s p idx

def dequeueTaskTs (s : Sys X) (p : TaskId) : Sys X := tsListDel s p

def yieldTaskTs (s : Sys X) : Sys X :=
  tsListMoveTail s s.curr (139 - (s.task s.curr).prio)

def checkPreemptCurrTs (s : Sys X) (p : TaskId) : Sys X :=
  if (s.task s.curr).prio > (s.task p).prio then s.reschedCurr else s

/-- The scan of `pick_next_task_ts` over the lists; the `put_prev_task` that follows
belongs to the class of `prev`. -/
def pickNextTaskTs (s : Sys X) : Option TaskId := Levels.top? s.tsQueue

/-- The slice after `--p->ts.time_slice`. -/
def decTimeSlice (n : Nat) : Nat := (n + (2 ^ 32 - 1)) % 2 ^ 32

/-- The rest of `task_tick_ts`, once the slice is used up. -/
def expireTimeSlice (s : Sys X) (p : TaskId) : Sys X :=
  let np := getNewPrio (s.task p).prio .expire
  let nt := getNumTicks np.1
  let s := (s.log (np.2 ++ nt.2)).modify p fun t =>
    { t with prio := np.1, ts := { t.ts with timeSlice := nt.1 } }
  (tsListMoveTail s p (139 - (s.task p).prio)).reschedCurr

def taskTickTs (s : Sys X) (p : TaskId) : Sys X :=
  if (s.task p).policy ≠ .ts then s
  else
    let left := decTimeSlice (s.task p).ts.timeSlice
    let s := (s.log (if (s.task p).ts.timeSlice = 0 then [.sliceWrap] else [])).modify p
      fun t => { t with ts := { t.ts with timeSlice := left } }
    if left ≠ 0 then s else expireTimeSlice s p

/-- `prio_changed_ts` and `switched_to_ts` do nothing. -/
def prioChangedTs (s : Sys X) (_p : TaskId) (_oldprio : Int) : Sys X := s

@[inherit_doc prioChangedTs]
def switchedToTs (s : Sys X) (_p : TaskId) : Sys X := s

end Sched
