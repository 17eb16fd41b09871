/-
The bandwidth of the real-time class across the CPUs of one root domain, as in
`kernel/sched/rt.c` without task groups.

Every CPU may run real-time tasks for `rt_runtime` out of each `rt_period`.  A CPU
that runs out borrows from its neighbours, is throttled when that is not enough,
and is released by the period timer; a CPU that goes offline takes back what it
lent, or hands back what it borrowed.  Each operation below runs under the locks
the source holds, so operations of different CPUs interleave but do not overlap.
The period timer drops its locks between two CPUs, so each visit is an operation.

The tasks themselves are only counted here: `Sched/Rt.lean` has the lists they are
on.  CPUs of the domain are numbered in the order `for_each_cpu` visits them.
-/
import Mathlib.Algebra.BigOperators.Group.Finset.Basic
import KernelProgramming.Lib.Runs

namespace Bandwidth

/-- The value of type `u64` an expression is stored as. -/
def u64 (x : Int) : Nat := (x % 2 ^ 64).toNat

/-- The value of type `s64` an expression is stored as. -/
def s64 (x : Int) : Int := x.bmod (2 ^ 64)

def runtimeInf : Nat := 2 ^ 64 - 1

structure RtRq where
  rtNrRunning : Nat
  rtQueued : Bool
  rtThrottled : Bool
  rtTime : Nat
  rtRuntime : Nat
  deriving DecidableEq, Repr

/-- `otherNrRunning` is what the other classes have added to `nr_running`. -/
structure Rq where
  nrRunning : Nat
  otherNrRunning : Nat
  rt : RtRq
  online : Bool
  needResched : Bool
  deriving DecidableEq, Repr

/-- `global_rt_period`. -/
def globalRtPeriod (sysctlSchedRtPeriod : Nat) : Nat := sysctlSchedRtPeriod * 1000

/-- `global_rt_runtime`. -/
def globalRtRuntime (sysctlSchedRtRuntime : Int) : Nat :=
  if sysctlSchedRtRuntime < 0 then runtimeInf else u64 (sysctlSchedRtRuntime * 1000)

/--
`sched_rt_global_validate`.  The runtime is an `int` and the period an `unsigned
int`: the first comparison widens the runtime to 64 bits, the second converts it to
an `unsigned int`.
-/
def schedRtGlobalValidate (sysctlSchedRtPeriod : Nat) (sysctlSchedRtRuntime : Int) : Bool :=
  if sysctlSchedRtPeriod = 0 then false
  else
    !(decide (u64 sysctlSchedRtRuntime ≠ runtimeInf)
      && decide ((sysctlSchedRtPeriod : Int) < sysctlSchedRtRuntime % 2 ^ 32))

/--
What is fixed while the CPUs run: the two sysctl values, which `sched_rt_handler`
has validated, and whether `RT_RUNTIME_SHARE` is on.  `fits` holds with room to
spare: a period is less than `2 ^ 42` nanoseconds.
-/
structure Config (n : Nat) where
  sysctlSchedRtPeriod : Nat
  sysctlSchedRtRuntime : Int
  rtRuntimeShare : Bool
  int : -(2 ^ 31) ≤ sysctlSchedRtRuntime ∧ sysctlSchedRtRuntime < 2 ^ 31
  unsigned : sysctlSchedRtPeriod < 2 ^ 32
  valid : schedRtGlobalValidate sysctlSchedRtPeriod sysctlSchedRtRuntime = true
  fits : n * globalRtPeriod sysctlSchedRtPeriod < 2 ^ 63

variable {n : Nat}

/-- `def_rt_bandwidth.rt_period`. -/
def Config.rtPeriod (c : Config n) : Nat := globalRtPeriod c.sysctlSchedRtPeriod

/-- `def_rt_bandwidth.rt_runtime`. -/
def Config.rtRuntime (c : Config n) : Nat := globalRtRuntime c.sysctlSchedRtRuntime

def Config.rtBandwidthEnabled (c : Config n) : Bool := decide (0 ≤ c.sysctlSchedRtRuntime)

/-- The runqueues of the domain. -/
abbrev Rqs (n : Nat) := Fin n → Rq

def Rqs.modifyRt (rqs : Rqs n) (i : Fin n) (f : RtRq → RtRq) : Rqs n :=
  Function.update rqs i { rqs i with rt := f (rqs i).rt }

def Rqs.setRuntime (rqs : Rqs n) (i : Fin n) (runtime : Nat) : Rqs n :=
  rqs.modifyRt i fun rt => { rt with rtRuntime := runtime }

/-! ### Putting the real-time tasks of a CPU on and off its runqueue -/

def Rq.reschedCurr (rq : Rq) : Rq := { rq with needResched := true }

/-- `dequeue_top_rt_rq`; `none` is its `BUG_ON(!rq->nr_running)`. -/
def dequeueTopRtRq (rq : Rq) : Option Rq :=
  if !rq.rt.rtQueued then some rq
  else if rq.nrRunning = 0 then none
  else
    some
      { rq with
        nrRunning := rq.nrRunning - rq.rt.rtNrRunning
        rt := { rq.rt with rtQueued := false } }

def enqueueTopRtRq (rq : Rq) : Rq :=
  if rq.rt.rtQueued then rq
  else if rq.rt.rtThrottled then rq
  else if rq.rt.rtNrRunning ≠ 0 then
    { rq with
      nrRunning := rq.nrRunning + rq.rt.rtNrRunning
      rt := { rq.rt with rtQueued := true } }
  else rq

def schedRtRqEnqueue (rq : Rq) : Rq :=
  if rq.rt.rtNrRunning = 0 then rq else (enqueueTopRtRq rq).reschedCurr

/-- `enqueue_rt_entity` of a task that is not queued yet. -/
def enqueueRtEntity (rq : Rq) : Option Rq :=
  (dequeueTopRtRq rq).map fun rq =>
    enqueueTopRtRq { rq with rt := { rq.rt with rtNrRunning := rq.rt.rtNrRunning + 1 } }

/-- `dequeue_rt_entity` of a task that is queued, when there is one. -/
def dequeueRtEntity (rq : Rq) : Option Rq :=
  if rq.rt.rtNrRunning = 0 then some rq
  else
    (dequeueTopRtRq rq).map fun rq =>
      enqueueTopRtRq { rq with rt := { rq.rt with rtNrRunning := rq.rt.rtNrRunning - 1 } }

/-- Another class queues a task. -/
def addOther (rq : Rq) : Rq :=
  { rq with nrRunning := rq.nrRunning + 1, otherNrRunning := rq.otherNrRunning + 1 }

/-- Another class dequeues one of its tasks. -/
def subOther (rq : Rq) : Rq :=
  if rq.otherNrRunning = 0 then rq
  else { rq with nrRunning := rq.nrRunning - 1, otherNrRunning := rq.otherNrRunning - 1 }

/-! ### Borrowing -/

/-- How much of a neighbour's spare time `diff` goes to `rt_rq` in `do_balance_runtime`. -/
def borrowed (rtPeriod weight : Nat) (rtRq : RtRq) (diff : Int) : Int :=
  let diff := diff / weight
  if (rtPeriod : Int) < u64 (rtRq.rtRuntime + diff) then s64 (rtPeriod - rtRq.rtRuntime : Int)
  else diff

/-- The loop of `do_balance_runtime` over the CPUs of the domain. -/
def doBalanceLoop (rtPeriod weight : Nat) (this : Fin n) : List (Fin n) → Rqs n → Rqs n
  | [], rqs => rqs
  | i :: rest, rqs =>
      if i = this ∨ (rqs i).rt.rtRuntime = runtimeInf then
        doBalanceLoop rtPeriod weight this rest rqs
      else
        let diff := s64 ((rqs i).rt.rtRuntime - (rqs i).rt.rtTime : Int)
        if 0 < diff then
          let diff := borrowed rtPeriod weight (rqs this).rt diff
          let rqs := rqs.setRuntime i (u64 ((rqs i).rt.rtRuntime - diff))
          let rqs := rqs.setRuntime this (u64 ((rqs this).rt.rtRuntime + diff))
          if (rqs this).rt.rtRuntime = rtPeriod then rqs
          else doBalanceLoop rtPeriod weight this rest rqs
        else doBalanceLoop rtPeriod weight this rest rqs

def doBalanceRuntime (c : Config n) (rqs : Rqs n) (this : Fin n) : Rqs n :=
  doBalanceLoop c.rtPeriod n this (List.finRange n) rqs

def balanceRuntime (c : Config n) (rqs : Rqs n) (this : Fin n) : Rqs n :=
  if !c.rtRuntimeShare then rqs
  else if (rqs this).rt.rtRuntime < (rqs this).rt.rtTime then doBalanceRuntime c rqs this
  else rqs

/-! ### Throttling -/

/-- The state `sched_rt_runtime_exceeded` leaves, with what it returns. -/
def schedRtRuntimeExceeded (c : Config n) (rqs : Rqs n) (this : Fin n) :
    Option (Rqs n × Bool) :=
  if (rqs this).rt.rtThrottled then some (rqs, true)
  else if c.rtPeriod ≤ (rqs this).rt.rtRuntime then some (rqs, false)
  else
    let rqs := balanceRuntime c rqs this
    let runtime := (rqs this).rt.rtRuntime
    if runtime = runtimeInf then some (rqs, false)
    else if runtime < (rqs this).rt.rtTime then
      if c.rtRuntime ≠ 0 then
        let rqs := rqs.modifyRt this fun rt => { rt with rtThrottled := true }
        (dequeueTopRtRq (rqs this)).map fun rq => (Function.update rqs this rq, true)
      else some (rqs.modifyRt this fun rt => { rt with rtTime := 0 }, false)
    else some (rqs, false)

/-- `update_curr_rt` on a CPU that runs a real-time task, `deltaExec` after it did so last. -/
def updateCurrRt (c : Config n) (rqs : Rqs n) (this : Fin n) (deltaExec : Nat) :
    Option (Rqs n) :=
  if s64 deltaExec ≤ 0 then some rqs
  else if !c.rtBandwidthEnabled then some rqs
  else if (rqs this).rt.rtRuntime = runtimeInf then some rqs
  else
    let rqs := rqs.modifyRt this fun rt => { rt with rtTime := u64 (rt.rtTime + deltaExec) }
    (schedRtRuntimeExceeded c rqs this).map fun (rqs, exceeded) =>
      if exceeded then Function.update rqs this (rqs this).reschedCurr else rqs

/-- The time a CPU has left over after `overrun` periods. -/
def replenished (overrun runtime rtTime : Nat) : Nat :=
  rtTime - min rtTime (u64 (overrun * runtime : Int))

/-- One turn of the loop of `do_sched_rt_period_timer`. -/
def schedRtPeriodVisit (c : Config n) (rqs : Rqs n) (i : Fin n) (overrun : Nat) : Rqs n :=
  let rqs :=
    if !c.rtRuntimeShare && decide ((rqs i).rt.rtRuntime ≠ runtimeInf) then
      rqs.setRuntime i c.rtRuntime
    else rqs
  if (rqs i).rt.rtTime = 0 ∧ (rqs i).rt.rtNrRunning = 0 then rqs
  else if (rqs i).rt.rtTime ≠ 0 then
    let rqs := if (rqs i).rt.rtThrottled then balanceRuntime c rqs i else rqs
    let runtime := (rqs i).rt.rtRuntime
    let rqs := rqs.modifyRt i fun rt => { rt with rtTime := replenished overrun runtime rt.rtTime }
    if (rqs i).rt.rtThrottled ∧ (rqs i).rt.rtTime < runtime then
      let rqs := rqs.modifyRt i fun rt => { rt with rtThrottled := false }
      Function.update rqs i (schedRtRqEnqueue (rqs i))
    else rqs
  else if (rqs i).rt.rtThrottled then rqs
  else Function.update rqs i (schedRtRqEnqueue (rqs i))

/-! ### A CPU comes and goes -/

/-- The loop of `__disable_runtime` that takes back what was lent. -/
def reclaimLoop (this : Fin n) : List (Fin n) → Rqs n → Int → Rqs n × Int
  | [], rqs, want => (rqs, want)
  | i :: rest, rqs, want =>
      if i = this ∨ (rqs i).rt.rtRuntime = runtimeInf then reclaimLoop this rest rqs want
      else
        let diff := if 0 < want then min (s64 (rqs i).rt.rtRuntime) want else want
        let rqs := rqs.setRuntime i (u64 ((rqs i).rt.rtRuntime - diff))
        if want - diff = 0 then (rqs, want - diff) else reclaimLoop this rest rqs (want - diff)

/-- The end of `__disable_runtime`, from the label `balanced` on. -/
def disableBalanced (rqs : Rqs n) (this : Fin n) : Rqs n :=
  let rqs := rqs.modifyRt this fun rt => { rt with rtRuntime := runtimeInf, rtThrottled := false }
  Function.update rqs this (schedRtRqEnqueue (rqs this))

/-- `__disable_runtime`; `none` is its `BUG_ON(want)`. -/
def disableRuntime (c : Config n) (rqs : Rqs n) (this : Fin n) : Option (Rqs n) :=
  if (rqs this).rt.rtRuntime = runtimeInf ∨ (rqs this).rt.rtRuntime = c.rtRuntime then
    some (disableBalanced rqs this)
  else
    let want := s64 (c.rtRuntime - (rqs this).rt.rtRuntime : Int)
    let (rqs, want) := reclaimLoop this (List.finRange n) rqs want
    if want ≠ 0 then none else some (disableBalanced rqs this)

/-- `__enable_runtime`. -/
def enableRuntime (c : Config n) (rqs : Rqs n) (this : Fin n) : Rqs n :=
  rqs.modifyRt this fun rt =>
    { rt with rtRuntime := c.rtRuntime, rtTime := 0, rtThrottled := false }

def setRqOnline (c : Config n) (rqs : Rqs n) (this : Fin n) : Rqs n :=
  if (rqs this).online then rqs
  else
    let rqs := Function.update rqs this { rqs this with online := true }
    enableRuntime c rqs this

def setRqOffline (c : Config n) (rqs : Rqs n) (this : Fin n) : Option (Rqs n) :=
  if (rqs this).online then
    (disableRuntime c rqs this).map fun rqs =>
      Function.update rqs this { rqs this with online := false }
  else some rqs

/-! ### Runs -/

inductive Op (n : Nat)
  | enqueueRt (cpu : Fin n)
  | dequeueRt (cpu : Fin n)
  | addOther (cpu : Fin n)
  | subOther (cpu : Fin n)
  | updateCurrRt (cpu : Fin n) (deltaExec : Nat)
  | periodVisit (cpu : Fin n) (overrun : Nat)
  | setRqOnline (cpu : Fin n)
  | setRqOffline (cpu : Fin n)

/-- One operation; `none` is a `BUG_ON` that fires. -/
def step (c : Config n) (rqs : Rqs n) : Op n → Option (Rqs n)
  | .enqueueRt cpu => (enqueueRtEntity (rqs cpu)).map (Function.update rqs cpu)
  | .dequeueRt cpu => (dequeueRtEntity (rqs cpu)).map (Function.update rqs cpu)
  | .addOther cpu => some (Function.update rqs cpu (addOther (rqs cpu)))
  | .subOther cpu => some (Function.update rqs cpu (subOther (rqs cpu)))
  | .updateCurrRt cpu deltaExec => updateCurrRt c rqs cpu deltaExec
  | .periodVisit cpu overrun => some (schedRtPeriodVisit c rqs cpu overrun)
  | .setRqOnline cpu => some (setRqOnline c rqs cpu)
  | .setRqOffline cpu => setRqOffline c rqs cpu

def run (c : Config n) : Rqs n → List (Op n) → Option (Rqs n) := Runs.run (step c)

/-- The runqueues when every CPU has come up: `sched_init` and `set_rq_online`. -/
def bootRqs (c : Config n) : Rqs n := fun _ =>
  { nrRunning := 0
    otherNrRunning := 0
    rt :=
      { rtNrRunning := 0
        rtQueued := false
        rtThrottled := false
        rtTime := 0
        rtRuntime := c.rtRuntime }
    online := true
    needResched := false }

end Bandwidth
