/-
A small machine to instantiate the general results with.

Everything proved about the scheduler is proved for whatever the classes outside
this tree do.  Here is one choice for them: a fair class that is a single queue,
and no deadline or stop tasks.  `queueFair` gives real-time tasks all the time they
want, `tightFair` throttles them as soon as they are accounted for, and `countingFair`
takes nothing from a counter that is zero.
-/
import KernelProgramming.Sched.System

namespace Sched

/-- A hook that does nothing. -/
def HookEffect.none {X : Type} (s : Sys X) : HookEffect X :=
  { priv := s.priv, nrRunning := s.nrRunning, hNrRunning := s.hNrRunning, resched := false }

/-- A fair class that is one queue, served from the front.  The other classes outside this
tree have no tasks. -/
def queueFair : OtherClasses (List TaskId) where
  hook cls h s :=
    match cls, h with
    | .fair, .enqueueTask p _ =>
        { priv := s.priv ++ [p]
          nrRunning := s.nrRunning + 1
          hNrRunning := s.hNrRunning + 1
          resched := false }
    | .fair, .dequeueTask p _ =>
        { priv := s.priv.erase p
          nrRunning := s.nrRunning - 1
          hNrRunning := s.hNrRunning - 1
          resched := false }
    | _, _ => HookEffect.none s
  pickNextTask cls s _ :=
    (s.priv.find? fun p => cls = .fair ∧ (s.task p).schedClass = .fair ∧ (s.task p).onRq = true).map
      fun p => (p, HookEffect.none s)
  pick_own := by
    intro cls s prev p e h
    obtain ⟨q, hq, heq⟩ := Option.map_eq_some_iff.mp h
    have hfound := List.find?_some hq
    simp only [decide_eq_true_eq] at hfound
    cases heq
    exact ⟨by rw [hfound.1]; exact hfound.2.1, hfound.2.2⟩
  dlEntityPreempt _ _ _ := false
  rrTimeslice := 25
  rtAccount s := { priv := s.priv, counted := false, exceeded := false }
  rtPeriod s := { priv := s.priv, timed := false, within := false }

/-- `queueFair` with hardly any time for real-time tasks. -/
def tightFair : OtherClasses (List TaskId) :=
  { queueFair with
    rtAccount := fun s => { priv := s.priv, counted := true, exceeded := true }
    rtPeriod := fun s => { priv := s.priv, timed := true, within := true } }

/-- `queueFair` whose counters stop at zero. -/
def countingFair : OtherClasses (List TaskId) :=
  { queueFair with
    hook := fun cls k s =>
      match cls, k with
      | .fair, .dequeueTask p flags =>
          if s.nrRunning = 0 ∨ s.hNrRunning = 0 then HookEffect.none s
          else queueFair.hook .fair (.dequeueTask p flags) s
      | cls, k => queueFair.hook cls k s }

/-- A `SCHED_NORMAL` task of nice 0. -/
def normalTask (state : TaskState) (onRq : Bool) : TaskStruct where
  state := state
  onRq := onRq
  prio := 120
  staticPrio := 120
  normalPrio := 120
  rtPriority := 0
  schedClass := .fair
  rt := { onRq := false, onList := false, timeSlice := 25, timeout := 0 }
  ts := { timeSlice := 12 }
  policy := .normal
  hasMm := true
  schedResetOnFork := false
  piTopTask := none

/-- Task 0 is the idle task; task 1 runs and is the only one queued. -/
def bootSys : Sys (List TaskId) where
  task q :=
    if q = 0 then { normalTask .running true with schedClass := .idle }
    else if q = 1 then normalTask .running true
    else normalTask .dead false
  curr := 1
  idle := 0
  stop := none
  needResched := false
  nrRunning := 1
  hNrRunning := 1
  wakeListEmpty := true
  tsQueue := initTsRq
  rtQueue := Levels.empty
  rtBitmap _ := false
  rtNrRunning := 0
  rrNrRunning := 0
  rtQueued := false
  rtThrottled := false
  rtHighestPrio := maxRtPrio
  priv := [1]
  faults := []

/-- A `SCHED_TS` task of nice 0 that is not queued. -/
def tsTask : TaskStruct :=
  { normalTask .running false with policy := .ts, schedClass := .ts }

/-- The idle task runs, and nothing is queued. -/
def emptySys : Sys (List TaskId) :=
  { bootSys with
    task := fun q =>
      if q = 0 then { normalTask .running true with schedClass := .idle }
      else normalTask .running false
    curr := 0
    nrRunning := 0
    hNrRunning := 0
    priv := [] }

/-- A request for a policy at nice 0. -/
def plainAttr (policy : Int) (priority : Nat) : SchedAttr where
  schedPolicy := policy
  schedNice := 0
  schedPriority := priority
  flagResetOnFork := false
  flagSugov := false
  flagUnknown := false

/-- A caller who may do anything. -/
def rootEnv : SetschedulerEnv where
  capSysNice := true
  canNice _ := true
  rlimRtprio := 0
  sameOwner := true
  securityErr := 0
  checkparamDl := true
  dlParamChanged := false
  dlBandwidthOk := true
  dlOverflow := false

/-- `sched_setscheduler` by root. -/
def Op.setPolicy (p : TaskId) (policy : Int) (priority : Nat) : Op :=
  .schedSetscheduler p (plainAttr policy priority) rootEnv true true

/-- `sched_setscheduler(p, SCHED_TS)`. -/
def Op.toTs (p : TaskId) : Op := .setPolicy p 10 0

end Sched
