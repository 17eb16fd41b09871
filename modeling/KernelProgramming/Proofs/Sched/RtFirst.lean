/-
`__schedule` runs the first real-time task.

`pick_next_task` has a shortcut past every class but the fair one, taken when
`nr_running` equals the fair class's own counter.  Time-sharing tasks are passed
over by it.  Real-time tasks are not, because `rt.c` counts its tasks in
`nr_running`: in every state the counter is the sum of what the fair class, the
real-time class and the classes above have put into it.  Only while the CPU is
throttled are they passed over, and then they are not counted.

What the classes outside this tree have to do for this is `Balanced`: a hook
changes `nr_running` by as much as it changes the class's own count.
-/
import KernelProgramming.Proofs.Sched.Dispatch
import KernelProgramming.Proofs.Sched.RtOrder

namespace Sched

variable {X : Type} {other : OtherClasses X} {own : X → Nat} {s s' t u : Sys X} {p : TaskId}

/-- A hook changes `nr_running` by as much as `h_nr_running` and the counts of the stop and
the deadline class, which `own` reads. -/
structure Balanced (other : OtherClasses X) (own : X → Nat) : Prop where
  hook : ∀ cls k s, (other.hook cls k s).nrRunning + s.hNrRunning + own s.priv
    = s.nrRunning + (other.hook cls k s).hNrRunning + own (other.hook cls k s).priv
  pick : ∀ cls s prev r, other.pickNextTask cls s prev = some r →
    r.2.nrRunning + s.hNrRunning + own s.priv = s.nrRunning + r.2.hNrRunning + own r.2.priv
  rtAccount : ∀ s, own (other.rtAccount s).priv = own s.priv
  rtPeriod : ∀ s, own (other.rtPeriod s).priv = own s.priv

/-- `nr_running` is what the classes have put into it, and the real-time class has unless the CPU
is throttled. -/
structure Counted (own : X → Nat) (s : Sys X) : Prop where
  queued : s.rtQueued = true ↔ s.rtNrRunning ≠ 0 ∧ s.rtThrottled = false
  total : s.nrRunning
    = s.hNrRunning + own s.priv + if s.rtQueued then s.rtNrRunning else 0

/-- To `rt.c` all the others are the rest. -/
theorem counted_iff : Counted own s ↔ RtCounted (s.hNrRunning + own s.priv) s :=
  ⟨fun h => ⟨h.queued, h.total⟩, fun h => ⟨h.queued, h.total⟩⟩

/-! ### The counters under `rt.c` -/

theorem enqueueRtEntityOnce_priv (s : Sys X) (p : TaskId) (flags : QueueFlags) :
    (enqueueRtEntityOnce s p flags).priv = s.priv := by
  unfold enqueueRtEntityOnce incRtTasks incRtPrio enlistRtEntity
  dsimp only
  repeat' split
  all_goals rfl

theorem dequeueRtEntityOnce_priv (s : Sys X) (p : TaskId) (flags : QueueFlags) :
    (dequeueRtEntityOnce s p flags).priv = s.priv := by
  unfold dequeueRtEntityOnce decRtTasks decRtPrio delistRtEntity
  dsimp only
  repeat' split
  all_goals rfl

theorem enqueueTopRtRq_priv (s : Sys X) : (enqueueTopRtRq s).priv = s.priv := by
  unfold enqueueTopRtRq
  repeat' split
  all_goals rfl

theorem dequeueTopRtRq_priv (s : Sys X) : (dequeueTopRtRq s).priv = s.priv := by
  unfold dequeueTopRtRq
  split <;> rfl

theorem dequeueRtStack_priv (s : Sys X) (p : TaskId) (flags : QueueFlags) :
    (dequeueRtStack s p flags).priv = s.priv := by
  unfold dequeueRtStack
  dsimp only
  split
  · rw [dequeueRtEntityOnce_priv, dequeueTopRtRq_priv]
  · exact dequeueTopRtRq_priv s

theorem enqueueTaskRt_priv (s : Sys X) (p : TaskId) (flags : QueueFlags) :
    (enqueueTaskRt s p flags).priv = s.priv := by
  unfold enqueueTaskRt enqueueRtEntity
  dsimp only
  rw [enqueueTopRtRq_priv, enqueueRtEntityOnce_priv, dequeueRtStack_priv]
  split <;> rfl

theorem dequeueRtEntity_priv (s : Sys X) (p : TaskId) (flags : QueueFlags) :
    (dequeueRtEntity s p flags).priv = s.priv := by
  unfold dequeueRtEntity
  rw [enqueueTopRtRq_priv, dequeueRtStack_priv]

theorem enqueueTaskRt_counted (h : Counted own s) (hoff : (s.task p).rt.onRq = false)
    (flags : QueueFlags) : Counted own (enqueueTaskRt s p flags) := by
  rw [counted_iff, (enqueueTaskRt_onlyRt s p flags).hNrRunning, enqueueTaskRt_priv]
  exact (enqueueTaskRt_counts hoff (counted_iff.mp h) flags).1

theorem updateCurrRt_own (hbal : Balanced other own) (s : Sys X) :
    own (updateCurrRt other s).priv = own s.priv := by
  rcases updateCurrRt_cases other s with ⟨mark, heq⟩ | heq | heq
  · rw [heq]
    exact hbal.rtAccount s
  · rw [heq]
  · rw [heq]
    show own (dequeueTopRtRq _).priv = _
    rw [dequeueTopRtRq_priv]
    exact hbal.rtAccount s

theorem updateCurrRt_counted (hbal : Balanced other own) (h : Counted own s) :
    Counted own (updateCurrRt other s) := by
  rw [counted_iff, (updateCurrRt_timed other s).hNrRunning, updateCurrRt_own hbal]
  exact (counted_iff.mp h).updateCurrRt other

theorem doSchedRtPeriodTimer_own (hbal : Balanced other own) (s : Sys X) :
    own (doSchedRtPeriodTimer other s).priv = own s.priv := by
  have henq : ∀ u : Sys X, (schedRtRqEnqueue u).priv = u.priv := by
    intro u
    unfold schedRtRqEnqueue
    split
    · rfl
    · exact enqueueTopRtRq_priv u
  unfold doSchedRtPeriodTimer
  simp only
  split
  · split
    · rw [henq]
      exact hbal.rtPeriod s
    · exact hbal.rtPeriod s
  · split
    · exact hbal.rtPeriod s
    · rw [henq]
      exact hbal.rtPeriod s

theorem doSchedRtPeriodTimer_counted (hbal : Balanced other own) (h : Counted own s) :
    Counted own (doSchedRtPeriodTimer other s) := by
  rw [counted_iff, (doSchedRtPeriodTimer_timed other s).hNrRunning, doSchedRtPeriodTimer_own hbal]
  exact (counted_iff.mp h).doSchedRtPeriodTimer other

theorem dequeueTaskRt_counted (hbal : Balanced other own) (h : Counted own s)
    (hon : (s.task p).rt.onRq = true) (flags : QueueFlags) :
    Counted own (dequeueTaskRt other s p flags) := by
  have hcurr := updateCurrRt_counted hbal h
  rw [← (updateCurrRt_timed other s).task] at hon
  unfold dequeueTaskRt
  generalize updateCurrRt other s = u at hcurr hon
  rw [counted_iff, (dequeueRtEntity_onlyRt u p flags).hNrRunning, dequeueRtEntity_priv]
  exact (dequeueRtEntity_counts hon (counted_iff.mp hcurr) flags).1

/-! ### The counters under the other classes -/

theorem callOther_counted (hbal : Balanced other own) (h : Counted own s) (cls : SchedClass)
    (k : Hook) : Counted own (s.callOther other cls k) := by
  have hhook := hbal.hook cls k s
  have htotal := h.total
  refine ⟨h.queued, ?_⟩
  show (other.hook cls k s).nrRunning = (other.hook cls k s).hNrRunning
    + own (other.hook cls k s).priv + if s.rtQueued then s.rtNrRunning else 0
  omega

theorem putPrevTask_counted (hbal : Balanced other own) (h : Counted own s) (p : TaskId) :
    Counted own (putPrevTask other s p) := by
  unfold putPrevTask
  split
  · exact h
  · exact updateCurrRt_counted hbal h
  · exact callOther_counted hbal h _ _

theorem setCurrIf_counted (hbal : Balanced other own) (h : Counted own s) (p : TaskId)
    (running : Bool) : Counted own (setCurrIf other s p running) := by
  unfold setCurrIf setCurrTask
  split
  · split
    · exact h
    · exact h
    · exact callOther_counted hbal h _ _
  · exact h

theorem setLoadWeight_counted (hbal : Balanced other own) (h : Counted own s) (p : TaskId)
    (updateLoad : Bool) : Counted own (setLoadWeight other s p updateLoad) := by
  unfold setLoadWeight
  split
  · exact h
  · split
    · exact callOther_counted hbal h _ _
    · exact h

theorem reschedCurr_counted (h : Counted own s) : Counted own s.reschedCurr := ⟨h.queued, h.total⟩

theorem modify_counted (h : Counted own s) (p : TaskId) (f : TaskStruct → TaskStruct) :
    Counted own (s.modify p f) := ⟨h.queued, h.total⟩

theorem checkPreemptCurr_counted (hbal : Balanced other own) (h : Counted own s) (p : TaskId)
    (flags : Nat) : Counted own (checkPreemptCurr other s p flags) := by
  unfold checkPreemptCurr checkPreemptCurrTs checkPreemptCurrRt
  repeat' split
  all_goals first | exact reschedCurr_counted h | exact callOther_counted hbal h _ _ | exact h

theorem checkClassChanged_counted (hbal : Balanced other own) (h : Counted own s) (p : TaskId)
    (prevClass : SchedClass) (oldprio : Int) :
    Counted own (checkClassChanged other s p prevClass oldprio) := by
  have hfrom : Counted own (switchedFrom other s prevClass p) := by
    unfold switchedFrom
    split
    · exact h
    · exact h
    · exact callOther_counted hbal h _ _
  unfold checkClassChanged switchedTo switchedToTs switchedToRt prioChanged prioChangedTs
    prioChangedRt
  repeat' split
  all_goals
    first
      | exact hfrom
      | exact reschedCurr_counted hfrom
      | exact callOther_counted hbal hfrom _ _
      | exact h
      | exact reschedCurr_counted h
      | exact callOther_counted hbal h _ _

theorem tsListAddTail_counted (h : Counted own s) (p : TaskId) (idx : Int) :
    Counted own (tsListAddTail s p idx) := by
  unfold tsListAddTail
  split
  · exact ⟨h.queued, h.total⟩
  · exact ⟨h.queued, h.total⟩

theorem tsListMoveTail_counted (h : Counted own s) (p : TaskId) (idx : Int) :
    Counted own (tsListMoveTail s p idx) := by
  have hdel : Counted own (tsListDel s p) := ⟨h.queued, h.total⟩
  exact tsListAddTail_counted hdel p idx

/-! ### Dispatch -/

theorem enqueueTask_counted (hbal : Balanced other own) (h : Counted own s)
    (hoff : (s.task p).rt.onRq = false) (flags : QueueFlags) :
    Counted own (enqueueTask other s p flags) := by
  unfold enqueueTask
  split
  · unfold enqueueTaskTs
    dsimp only
    refine tsListAddTail_counted ?_ p _
    split
    · exact ⟨h.queued, h.total⟩
    · exact h
  · exact enqueueTaskRt_counted h hoff flags
  · exact callOther_counted hbal h _ _

theorem dequeueTask_counted (hbal : Balanced other own) (h : Counted own s) (hl : LinkedOnRq s)
    (hon : (s.task p).onRq = true) (flags : QueueFlags) :
    Counted own (dequeueTask other s p flags) := by
  unfold dequeueTask
  split
  · exact ⟨h.queued, h.total⟩
  · rename_i hrt
    exact dequeueTaskRt_counted hbal h ((hl.rtOn p).mpr ⟨hon, hrt⟩) flags
  · exact callOther_counted hbal h _ _

theorem takeOff_counted (hbal : Balanced other own) (h : Counted own s) (hl : LinkedOnRq s)
    (p : TaskId) (flags : QueueFlags) :
    Counted own (takeOff other s p flags) := by
  have hdeq : Counted own (if (s.task p).onRq then dequeueTask other s p flags else s) := by
    split
    · rename_i hon
      exact dequeueTask_counted hbal h hl hon flags
    · exact h
  unfold takeOff
  simp only
  split
  · exact putPrevTask_counted hbal hdeq p
  · exact hdeq

/-- Putting a task back that has been taken off, whatever class it is of now. -/
theorem putBack_counted (hbal : Balanced other own) (h : Inv s) {f : TaskStruct → TaskStruct}
    {flags : QueueFlags} (hu : Quiet ((takeOff other s p flags).modify p f) u)
    (hrt : (f ((takeOff other s p flags).task p)).rt.onRq
      = ((takeOff other s p flags).task p).rt.onRq)
    (hc : Counted own u) (queued : Bool) (flags' : QueueFlags) :
    Counted own (enqueueIf other u p queued flags') := by
  unfold enqueueIf
  split
  · refine enqueueTask_counted hbal hc ?_ flags'
    rw [hu.task, Sys.modify_task_self, hrt]
    simpa using (takeOff_linked (p := p) other h.linked rfl flags).rtOn p
  · exact hc

/-! ### The operations -/

theorem Linked.rtOff {on : TaskId → Bool} {saved : Option TaskId} (h : Linked on saved s)
    (hoff : on p = false) : (s.task p).rt.onRq = false := by
  have := h.rtOn p
  simpa [hoff] using this

theorem tryToWakeUp_counted (hbal : Balanced other own) (h : Inv s) (hc : Counted own s)
    (wakeFlags : Nat) : Counted own (tryToWakeUp other s p wakeFlags) := by
  unfold tryToWakeUp
  split
  · exact hc
  · split
    · exact modify_counted (checkPreemptCurr_counted hbal hc p wakeFlags) p _
    · rename_i hoff
      have henq : Counted own (ttwuActivate other s p { wakeup := true, noclock := true }) :=
        modify_counted (enqueueTask_counted hbal hc (h.linked.rtOff (by simpa using hoff)) _) p _
      exact modify_counted (checkPreemptCurr_counted hbal henq p wakeFlags) p
        fun t => { t with state := .running }

theorem wakeUpNewTask_counted (hbal : Balanced other own) (h : Inv s) (hc : Counted own s)
    (hnew : (s.task p).state = .new) : Counted own (wakeUpNewTask other s p) := by
  unfold wakeUpNewTask
  simp only
  refine checkPreemptCurr_counted hbal (modify_counted ?_ p _) p 2
  refine enqueueTask_counted hbal (modify_counted hc p _) ?_ _
  rw [s.modify_task_self]
  exact h.linked.rtOff (h.new p hnew)

theorem schedFork_counted (hbal : Balanced other own) (hc : Counted own s) (child : TaskId) :
    Counted own (schedFork other s child).2 := by
  have hnew := fun t => modify_counted hc child fun _ => t
  unfold schedFork
  simp only
  split
  · exact hc
  · split
    · exact hnew _
    · exact hnew _
    · exact callOther_counted hbal (hnew _) _ _

theorem deactivatePrev_counted (hbal : Balanced other own) (h : Inv s) (hc : Counted own s)
    (preempt signalPending : Bool) :
    Counted own (deactivatePrev other s preempt signalPending) := by
  unfold deactivatePrev
  split
  · split
    · exact modify_counted hc _ _
    · exact modify_counted (dequeueTask_counted hbal hc h.linked h.curr _) _ _
  · exact hc

theorem putPrevIf_counted (hbal : Balanced other own) (hc : Counted own s) (prev : TaskId)
    (answer : Option TaskId) : Counted own (putPrevIf other s prev answer).2 := by
  unfold putPrevIf
  dsimp only
  split
  · exact hc
  · exact putPrevTask_counted hbal hc prev

theorem pickNextTaskRt_counted (hbal : Balanced other own) (hc : Counted own s) (prev : TaskId) :
    Counted own (pickNextTaskRt other s prev).2 := by
  unfold pickNextTaskRt
  dsimp only
  split
  · exact updateCurrRt_counted hbal hc
  · exact hc

theorem pickClass_counted (hbal : Balanced other own) (hc : Counted own s) (prev : TaskId)
    (cls : SchedClass) : Counted own (pickClass other s prev cls).2 := by
  unfold pickClass
  split
  · exact putPrevIf_counted hbal hc prev _
  · exact putPrevIf_counted hbal (pickNextTaskRt_counted hbal hc prev) prev _
  · exact putPrevIf_counted hbal hc prev _
  · split
    · exact hc
    · rename_i q e hq
      have hpick : e.nrRunning + s.hNrRunning + own s.priv
          = s.nrRunning + e.hNrRunning + own e.priv := hbal.pick _ s prev (q, e) hq
      have htotal := hc.total
      refine ⟨hc.queued, ?_⟩
      show e.nrRunning
        = e.hNrRunning + own e.priv + if s.rtQueued then s.rtNrRunning else 0
      omega

theorem pickNextTask_counted (hbal : Balanced other own) (hc : Counted own s) {prev : TaskId}
    {r : TaskId × Sys X} (hr : pickNextTask other s prev = some r) : Counted own r.2 :=
  pickNextTask_keeps (P := Counted own) (fun _ cls hu => pickClass_counted hbal hu prev cls) hc hr

theorem schedule_counted (hbal : Balanced other own) (h : Inv s) (hc : Counted own s)
    (preempt signalPending : Bool) :
    Counted own (schedule other s preempt signalPending) := by
  have hready := deactivatePrev_ready other h preempt signalPending
  have hprev := deactivatePrev_counted hbal h hc preempt signalPending
  unfold schedule
  simp only
  generalize deactivatePrev other s preempt signalPending = u at hready hprev
  obtain ⟨⟨next, v⟩, hpick, -, -⟩ := pickNextTask_own other hready u.curr
  have hv := pickNextTask_counted hbal hprev hpick
  rw [hpick]
  exact ⟨hv.queued, hv.total⟩

theorem requeueTaskRt_counted (h : Counted own s) (p : TaskId) :
    Counted own (requeueTaskRt s p) := by
  unfold requeueTaskRt
  split
  · split
    · exact h
    · exact ⟨h.queued, h.total⟩
  · exact h

theorem taskTickRt_counted (hbal : Balanced other own) (hc : Counted own s) (p : TaskId) :
    Counted own (taskTickRt other s p) := by
  have hslice : ∀ (u : Sys X) (n : Nat), Counted own u → Counted own (u.modify p fun t =>
      { t with rt := { t.rt with timeSlice := n } }) := fun u _ hu => modify_counted hu _ _
  have hc := updateCurrRt_counted hbal hc
  unfold taskTickRt
  generalize updateCurrRt other s = s at hc
  simp only
  split
  · exact hc
  · generalize ((s.task p).rt.timeSlice + (2 ^ 32 - 1)) % 2 ^ 32 = left
    have h2 := hslice _ other.rrTimeslice (hslice s left hc)
    split
    · exact hslice s left hc
    · split
      · exact reschedCurr_counted (requeueTaskRt_counted h2 p)
      · exact h2

theorem schedulerTick_counted (hbal : Balanced other own) (hc : Counted own s) :
    Counted own (schedulerTick other s) := by
  unfold schedulerTick taskTick
  split
  · unfold taskTickTs
    split
    · exact hc
    · dsimp only
      split
      · exact ⟨hc.queued, hc.total⟩
      · refine reschedCurr_counted (tsListMoveTail_counted ?_ _ _)
        exact ⟨hc.queued, hc.total⟩
  · exact taskTickRt_counted hbal hc s.curr
  · exact callOther_counted hbal hc _ _

theorem yieldTask_counted (hbal : Balanced other own) (hc : Counted own s) :
    Counted own (yieldTask other s) := by
  unfold yieldTask
  split
  · exact tsListMoveTail_counted hc _ _
  · exact requeueTaskRt_counted hc _
  · exact callOther_counted hbal hc _ _

theorem setUserNice_counted (hbal : Balanced other own) (h : Inv s)
    (hc : Counted own s) (nice : Int) : Counted own (setUserNice other s p nice) := by
  unfold setUserNice
  split
  · exact hc
  · split
    · exact modify_counted hc _ _
    · have hoff := takeOff_counted hbal hc h.linked p { restore := true, noclock := true }
      have hu := Quiet.modify (g := effectivePrio) (setLoadWeight_quiet other
        ((takeOff other s p { restore := true, noclock := true }).modify p fun t =>
          { t with staticPrio := niceToPrio nice }) p true)
      have hput := putBack_counted hbal h hu rfl
        (modify_counted (setLoadWeight_counted hbal (modify_counted hoff p _) p true) p effectivePrio)
        (s.task p).onRq { restore := true, noclock := true }
      simp only
      refine setCurrIf_counted hbal ?_ p _
      split
      · exact reschedCurr_counted hput
      · exact hput

theorem doSetCpusAllowed_counted (hbal : Balanced other own) (h : Inv s)
    (hc : Counted own s) : Counted own (doSetCpusAllowed other s p) := by
  have hoff := takeOff_counted hbal hc h.linked p { restore := true, noclock := true }
  have hquiet : Quiet ((takeOff other s p { restore := true, noclock := true }).modify p id)
      (takeOff other s p { restore := true, noclock := true }) := by
    rw [show (takeOff other s p { restore := true, noclock := true }).modify p id
      = takeOff other s p { restore := true, noclock := true } by simp [Sys.modify]]
    exact Quiet.refl _
  exact setCurrIf_counted hbal (putBack_counted hbal h hquiet rfl hoff _ _) p _

theorem setscheduler_counted (hbal : Balanced other own) (hc : Counted own s) (attr : SchedAttr)
    (policy : Policy) (keepBoost : Bool) :
    Counted own (setscheduler other s p attr policy keepBoost) := by
  unfold setscheduler
  exact modify_counted (setLoadWeight_counted hbal (modify_counted hc p _) p true) p _

theorem setschedulerChange_counted (hbal : Balanced other own) (h : Inv s)
    (hc : Counted own s) (attr : SchedAttr) (policy : Policy) (resetFork pi : Bool) :
    Counted own (setschedulerChange other s p attr policy resetFork pi) := by
  have h1 := h.setResetOnFork (p := p) resetFork
  have hc1 := modify_counted hc p fun t => { t with schedResetOnFork := resetFork }
  unfold setschedulerChange
  simp only
  generalize s.modify p (fun t => { t with schedResetOnFork := resetFork }) = s₁ at h1 hc1
  refine checkClassChanged_counted hbal (setCurrIf_counted hbal ?_ p _) p _ _
  refine putBack_counted hbal h1 (setscheduler_quiet other attr policy pi) ?_ ?_ _ _
  · exact congrArg SchedRtEntity.onRq (setschedulerParams_kept attr policy _).2.1
  · exact setscheduler_counted hbal (takeOff_counted hbal hc1 h1.linked p _) attr policy pi

theorem schedSetscheduler_counted (hbal : Balanced other own) (h : Inv s)
    (hc : Counted own s) (attr : SchedAttr) (env : SetschedulerEnv) (user pi : Bool) :
    Counted own (schedSetscheduler other env s p attr user pi).2 := by
  have hflag : ∀ resetFork,
      Counted own (s.modify p fun t => { t with schedResetOnFork := resetFork }) :=
    fun _ => modify_counted hc p _
  unfold schedSetscheduler
  simp only
  split
  · exact hc
  · split
    · exact hc
    · exact hflag _
    · exact setschedulerChange_counted hbal h hc attr _ _ pi

theorem rtMutexSetprio_counted (hbal : Balanced other own) (h : Inv s)
    (hc : Counted own s) (piTask : Option TaskId) :
    Counted own (rtMutexSetprio other s p piTask) := by
  have hdonor : Counted own (withDonor s p piTask) := modify_counted hc p _
  unfold rtMutexSetprio
  simp only [s.modify_task_self, s.modify_idle]
  split
  · exact hc
  · split
    · exact hdonor
    · split
      · exact hdonor
      · refine checkClassChanged_counted hbal (setCurrIf_counted hbal ?_ p _) p _ _
        refine putBack_counted hbal (h.setDonor piTask) (Quiet.refl _) ?_ ?_ _ _
        · show (if _ then _ else _ : SchedRtEntity).onRq = _
          split <;> rfl
        · refine modify_counted ?_ p _
          exact takeOff_counted hbal hdonor (h.setDonor piTask).linked p _

theorem taskSchedRuntime_counted (hbal : Balanced other own) (hc : Counted own s) (p : TaskId) :
    Counted own (taskSchedRuntime other s p) := by
  unfold taskSchedRuntime updateCurr
  split
  · split
    · exact hc
    · exact updateCurrRt_counted hbal hc
    · exact callOther_counted hbal hc _ _
  · exact hc

theorem step_counted (hbal : Balanced other own) {op : Op} (h : Inv s)
    (hc : Counted own s) (hstep : step other s op = some s') : Counted own s' := by
  obtain ⟨hen, rfl⟩ := step_eq_some hstep
  cases op with
  | schedFork child => exact schedFork_counted hbal hc child
  | wakeUpNewTask p => exact wakeUpNewTask_counted hbal h hc hen
  | tryToWakeUp p wakeFlags => exact tryToWakeUp_counted hbal h hc wakeFlags
  | setCurrentState st => exact modify_counted hc s.curr fun t => { t with state := st }
  | schedule preempt signalPending => exact schedule_counted hbal h hc preempt signalPending
  | doSchedYield signalPending =>
      exact schedule_counted hbal (yieldTask_inv other h) (yieldTask_counted hbal hc) false
        signalPending
  | doTaskDead =>
      have hdead := h.setState (p := s.curr) (show TaskState.dead ≠ .new by simp)
        fun heq => absurd heq hen
      exact schedule_counted hbal hdead (modify_counted hc _ _) false false
  | schedulerTick => exact schedulerTick_counted hbal hc
  | taskSchedRuntime p => exact taskSchedRuntime_counted hbal hc p
  | doSchedRtPeriodTimer => exact doSchedRtPeriodTimer_counted hbal hc
  | setUserNice p nice => exact setUserNice_counted hbal h hc nice
  | doSetCpusAllowed p => exact doSetCpusAllowed_counted hbal h hc
  | schedSetscheduler p attr env user pi =>
      exact schedSetscheduler_counted hbal h hc attr env user pi
  | rtMutexSetprio p piTask => exact rtMutexSetprio_counted hbal h hc piTask

theorem run_counted (hbal : Balanced other own) (hboot : Boot s) (hinit : InitRtRq s)
    (hcount : s.nrRunning = s.hNrRunning + own s.priv) {ops : List Op}
    (hrun : Runs.run (step other) s ops = some t) : Inv t ∧ RtOK t ∧ Counted own t := by
  have hstart : Counted own s := by
    refine ⟨?_, ?_⟩
    · rw [hinit.queued, hinit.nrRunning]
      simp
    · rw [hinit.queued]
      exact hcount
  refine Runs.run_invariant (I := fun s => Inv s ∧ RtOK s ∧ Counted own s) ?_ ops s t
    ⟨hboot.inv, hinit.rtOK hboot, hstart⟩ hrun
  intro s a s' h hstep
  exact ⟨step_inv h.1 hstep, step_rtOK h.1 h.2.1 hstep, step_counted hbal h.1 h.2.2 hstep⟩

/-! ### The task that runs -/

/-- A real-time task that may run keeps the shortcut from being taken. -/
theorem Counted.no_shortcut (hc : Counted own s) (hq : s.rtQueued = true) :
    s.nrRunning ≠ s.hNrRunning := by
  have htotal := hc.total
  have hne := (hc.queued.mp hq).1
  rw [hq, if_pos rfl] at htotal
  omega

theorem classWalk_from_rt
    (hno : ∀ q, (s.task q).onRq = true → (s.task q).schedClass ≠ .stop ∧ (s.task q).schedClass ≠ .dl)
    {prev q : TaskId} (hpick : (pickNextTaskRt other s prev).1 = some q) :
    ∃ v, classWalk other s prev SchedClass.forEachClass = some (q, v) := by
  refine ⟨putPrevTask other (pickNextTaskRt other s prev).2 prev, ?_⟩
  have hrt : pickClass other s prev .rt
      = (some q, putPrevTask other (pickNextTaskRt other s prev).2 prev) := by
    show putPrevIf other (pickNextTaskRt other s prev).2 prev (pickNextTaskRt other s prev).1 = _
    rw [hpick]
    rfl
  rw [classWalk_to_rt hno, classWalk, hrt]

/-! ### Throttled stays throttled -/

/-- Only the period timer takes the throttling back. -/
theorem updateCurrRt_rtThrottled (h : s.rtThrottled = true) :
    (updateCurrRt other s).rtThrottled = true := by
  rcases updateCurrRt_cases other s with ⟨mark, heq⟩ | heq | heq
  · rw [heq]
    exact h
  · rw [heq]
    exact h
  · rw [heq]
    unfold dequeueTopRtRq
    cases hq : s.rtQueued <;> simp [Sys.reschedCurr, subNrRunning]

theorem putPrevIf_rtThrottled (h : s.rtThrottled = true) (prev : TaskId) (answer : Option TaskId) :
    (putPrevIf other s prev answer).2.rtThrottled = true := by
  unfold putPrevIf putPrevTask
  dsimp only
  split
  · exact h
  · split
    · exact h
    · exact updateCurrRt_rtThrottled h
    · exact h

theorem pickClass_rtThrottled (h : s.rtThrottled = true) (prev : TaskId) (cls : SchedClass) :
    (pickClass other s prev cls).2.rtThrottled = true := by
  unfold pickClass
  split
  · exact putPrevIf_rtThrottled h prev _
  · refine putPrevIf_rtThrottled ?_ prev _
    unfold pickNextTaskRt
    dsimp only
    split
    · exact updateCurrRt_rtThrottled h
    · exact h
  · exact putPrevIf_rtThrottled h prev _
  · split
    · exact h
    · exact h

theorem FirstRt.of_eq {q : TaskId} (h : FirstRt s q) (htask : s'.task = s.task)
    (hqueue : s'.rtQueue = s.rtQueue) : FirstRt s' q := by
  unfold FirstRt queuedOf at *
  rw [htask, hqueue]
  exact h

/-- The walk on a CPU that is not throttled afterwards finds the first real-time task. -/
theorem classWalk_first (hr : RtOK s) (hl : LinkedOnRq s)
    (hno : ∀ q, (s.task q).onRq = true → (s.task q).schedClass ≠ .stop ∧ (s.task q).schedClass ≠ .dl)
    (hrt : (queuedOf s .rt).Nonempty) {prev next : TaskId} {v : Sys X}
    (hwalk : classWalk other s prev SchedClass.forEachClass = some (next, v))
    (hopen : v.rtThrottled = false) : FirstRt s next := by
  have hpicks : ((pickNextTaskRt other s prev).1 = none ↔
      queuedOf s .rt = ∅ ∨ (pickNextTaskRt other s prev).2.rtThrottled = true) ∧
      ∀ q, (pickNextTaskRt other s prev).1 = some q → FirstRt s q := hr.firstRt_of_pick hl prev
  obtain ⟨hnone, hfirst⟩ := hpicks
  cases hpick : (pickNextTaskRt other s prev).1 with
  | some q =>
      obtain ⟨w, hq⟩ := classWalk_from_rt hno hpick
      rw [hq] at hwalk
      cases hwalk
      exact hfirst _ hpick
  | none =>
      rcases hnone.mp hpick with hempty | hthr
      · exact absurd hempty hrt.ne_empty
      · -- The class has answered `NULL` on a throttled CPU, and the walk has gone on.
        rw [classWalk_to_rt hno, classWalk] at hwalk
        have hcls : pickClass other s prev .rt = (none, (pickNextTaskRt other s prev).2) := by
          show putPrevIf other (pickNextTaskRt other s prev).2 prev
            (pickNextTaskRt other s prev).1 = _
          rw [hpick]
          rfl
        rw [hcls] at hwalk
        have hkept := classWalk_keeps (P := fun u => u.rtThrottled = true)
          (fun _ cls hu => pickClass_rtThrottled hu prev cls) _ hthr hwalk
        rw [hopen] at hkept
        simp at hkept

/-- What `__schedule` does when a real-time task is queued, nobody above it is, and the CPU is not
throttled. -/
theorem schedule_first (h : Inv s) (hr : RtOK s) (hc : Counted own s) (hbal : Balanced other own)
    (preempt signalPending : Bool)
    (hno : ∀ q, ((schedule other s preempt signalPending).task q).onRq = true →
      ((schedule other s preempt signalPending).task q).schedClass ≠ .stop ∧
      ((schedule other s preempt signalPending).task q).schedClass ≠ .dl)
    (hrt : (queuedOf (schedule other s preempt signalPending) .rt).Nonempty)
    (hopen : (schedule other s preempt signalPending).rtThrottled = false) :
    FirstRt (schedule other s preempt signalPending)
      (schedule other s preempt signalPending).curr := by
  have hready := deactivatePrev_ready other h preempt signalPending
  have hprev := deactivatePrev_counted hbal h hc preempt signalPending
  have hrprev := deactivatePrev_rtOK other h hr preempt signalPending
  unfold schedule at hno hrt hopen ⊢
  simp only at hno hrt hopen ⊢
  generalize deactivatePrev other s preempt signalPending = u at hready hprev hrprev hno hrt hopen ⊢
  obtain ⟨⟨next, v⟩, hpick, -, hquiet⟩ := pickNextTask_own other hready u.curr
  rw [hpick] at hno hrt hopen ⊢
  simp only at hno hrt hopen ⊢
  have hqueued : queuedOf { v with needResched := false, curr := next } .rt = queuedOf u .rt := by
    unfold queuedOf
    rw [hquiet.task]
  rw [hqueued] at hrt
  rw [hquiet.task] at hno
  have hthr : u.rtThrottled = false := by
    by_contra hne
    have hkept := pickNextTask_keeps (P := fun u => u.rtThrottled = true)
      (fun _ cls hu => pickClass_rtThrottled hu u.curr cls) (by simpa using hne) hpick
    rw [hopen] at hkept
    simp at hkept
  -- The walk is made, and the first class to answer is the real-time class.
  have hqueuedRt := (hrprev.exact hready.linked).queued.mpr ⟨hrt, hthr⟩
  unfold pickNextTask at hpick
  rw [if_neg fun hshort => hprev.no_shortcut hqueuedRt hshort.2] at hpick
  exact (classWalk_first hrprev hready.linked hno hrt hpick hopen).of_eq hquiet.task hquiet.rtQueue

/-- The operations that end in `__schedule`. -/
def Op.Schedules : Op → Prop
  | .schedule _ _ => True
  | .doSchedYield _ => True
  | .doTaskDead => True
  | _ => False

/--
**Real-time tasks first.**  Whatever has happened before, whenever `__schedule` runs and
leaves a real-time task queued but no stop or deadline task, and the CPU is not throttled, it
has switched to the first of the real-time tasks.
-/
theorem runs_first_rt (hbal : Balanced other own) (hboot : Boot s) (hinit : InitRtRq s)
    (hcount : s.nrRunning = s.hNrRunning + own s.priv) {ops : List Op}
    (hrun : Runs.run (step other) s ops = some t) {op : Op} (hop : op.Schedules)
    (hstep : step other t op = some u)
    (hno : ∀ q, (u.task q).onRq = true →
      (u.task q).schedClass ≠ .stop ∧ (u.task q).schedClass ≠ .dl)
    (hrt : (queuedOf u .rt).Nonempty) (hopen : u.rtThrottled = false) : FirstRt u u.curr := by
  obtain ⟨h, hr, hc⟩ := run_counted hbal hboot hinit hcount hrun
  obtain ⟨hen, rfl⟩ := step_eq_some hstep
  cases op with
  | schedule preempt signalPending =>
      exact schedule_first h hr hc hbal preempt signalPending hno hrt hopen
  | doSchedYield signalPending =>
      exact schedule_first (yieldTask_inv other h) (yieldTask_rtOK other h hr)
        (yieldTask_counted hbal hc) hbal false signalPending hno hrt hopen
  | doTaskDead =>
      have hdead := h.setState (p := t.curr) (show TaskState.dead ≠ .new by simp)
        fun heq => absurd heq hen
      exact schedule_first hdead (hr.modify_same rfl rfl rfl rfl) (modify_counted hc _ _) hbal
        false false hno hrt hopen
  | _ => exact absurd hop (by simp [Op.Schedules])

/-! ### The small machine -/

theorem countingFair_balanced : Balanced countingFair fun _ => 0 where
  hook cls k s := by
    cases cls <;> cases k <;> try rfl
    · -- One more in both counters.
      show s.nrRunning + 1 + s.hNrRunning + 0 = s.nrRunning + (s.hNrRunning + 1) + 0
      omega
    · rename_i p flags
      have heq : countingFair.hook .fair (.dequeueTask p flags) s
          = if s.nrRunning = 0 ∨ s.hNrRunning = 0 then HookEffect.none s
            else queueFair.hook .fair (.dequeueTask p flags) s := rfl
      rw [heq]
      split
      · rfl
      · show s.nrRunning - 1 + s.hNrRunning + 0 = s.nrRunning + (s.hNrRunning - 1) + 0
        omega
  pick cls s prev r h := by
    obtain ⟨q, -, rfl⟩ := Option.map_eq_some_iff.mp h
    rfl
  rtAccount _ := rfl
  rtPeriod _ := rfl

/-- The running task is fair, and a task it has forked becomes a real-time task. -/
def rtChild : List Op := [.schedFork 2, .wakeUpNewTask 2, .setPolicy 2 1 50]

theorem runs_first_rt_rtChild :
    ∃ t u, Runs.run (step countingFair) bootSys rtChild = some t ∧
      step countingFair t (.schedule false false) = some u ∧ t.curr = 1 ∧ u.curr = 2 ∧
      FirstRt u u.curr := by
  have hsome : (Runs.run (step countingFair) bootSys (rtChild ++ [.schedule false false])).map
      (fun u => (u.curr, (u.task 1).schedClass, (u.task 2).schedClass, (u.task 2).onRq,
        u.rtThrottled))
      = some (2, .fair, .rt, true, false) := by decide +kernel
  obtain ⟨u, hall, hu⟩ := Option.map_eq_some_iff.mp hsome
  simp only [Prod.mk.injEq] at hu
  obtain ⟨hcurr, h1, h2, hon, hopen⟩ := hu
  obtain ⟨t, hrun, hlast⟩ := Runs.run_append hall
  obtain ⟨v, hstep, hv⟩ := Runs.run_cons hlast
  cases hv
  have hprev : t.curr = 1 := by
    have heval : (Runs.run (step countingFair) bootSys rtChild).map (fun t => t.curr) = some 1 := by
      decide +kernel
    rw [hrun] at heval
    exact Option.some.inj heval
  -- Nobody but the two tasks has been touched.
  have hothers : ∀ q, q ≠ 1 → q ≠ 2 → u.task q = bootSys.task q := by
    intro q hq1 hq2
    have hchild : Runs.EachStep (step countingFair) (fun s op => op.subject s ≠ q) bootSys rtChild := by
      refine Runs.eachStep_of_all fun s op hop => ?_
      simp only [rtChild, List.mem_cons, List.not_mem_nil, or_false] at hop
      rcases hop with rfl | rfl | rfl <;> exact Ne.symm hq2
    rw [← run_frame bootSys_boot.inv hchild hrun]
    refine (step_onlyMoves (run_inv bootSys_boot hrun) hstep).frame q ?_
    show q ≠ t.curr
    rw [hprev]
    exact hq1
  have hop : (Op.schedule false false).Schedules := trivial
  refine ⟨t, u, hrun, hstep, hprev, hcurr, ?_⟩
  refine runs_first_rt countingFair_balanced bootSys_boot bootSys_initRtRq rfl hrun hop hstep ?_
    ⟨2, hon, h2⟩ hopen
  intro q hq
  by_cases hq1 : q = 1
  · rw [hq1, h1]
    decide
  · by_cases hq2 : q = 2
    · rw [hq2, h2]
      decide
    · rw [hothers q hq1 hq2] at hq ⊢
      by_cases hq0 : q = 0
      · rw [hq0]
        decide
      · simp [bootSys, hq0, hq1, normalTask] at hq

end Sched
