/-
What the hooks of the scheduling classes can change.

Two relations carry every frame argument.  `Quiet s s'` says that `s'` differs
from `s` at most in the private data of other classes, the counters and the
reschedule mark; this is all a hook outside this tree can do.  `Owns p s s'` says
that besides, the queues may differ and of the tasks only `p`, and `p` only in its
priority and its two class entities; this is all a hook of `ts.c` or `rt.c` does
to the task it is called for.
-/
import KernelProgramming.Sched.System

namespace Sched

variable {X : Type}

/-- `s'` is `s` but for counters, private data and the reschedule mark. -/
structure Quiet (s s' : Sys X) : Prop where
  task : s'.task = s.task
  curr : s'.curr = s.curr
  idle : s'.idle = s.idle
  stop : s'.stop = s.stop
  tsQueue : s'.tsQueue = s.tsQueue
  rtQueue : s'.rtQueue = s.rtQueue
  faults : s'.faults = s.faults

theorem Quiet.refl (s : Sys X) : Quiet s s := ⟨rfl, rfl, rfl, rfl, rfl, rfl, rfl⟩

theorem Quiet.symm {s s' : Sys X} (h : Quiet s s') : Quiet s' s :=
  ⟨h.task.symm, h.curr.symm, h.idle.symm, h.stop.symm, h.tsQueue.symm, h.rtQueue.symm,
    h.faults.symm⟩

theorem Quiet.trans {s s' s'' : Sys X} (h : Quiet s s') (h' : Quiet s' s'') : Quiet s s'' :=
  ⟨h'.task.trans h.task, h'.curr.trans h.curr, h'.idle.trans h.idle, h'.stop.trans h.stop,
    h'.tsQueue.trans h.tsQueue, h'.rtQueue.trans h.rtQueue, h'.faults.trans h.faults⟩

theorem applyHook_quiet (s : Sys X) (e : HookEffect X) : Quiet s (s.applyHook e) :=
  ⟨rfl, rfl, rfl, rfl, rfl, rfl, rfl⟩

theorem callOther_quiet (other : OtherClasses X) (s : Sys X) (cls : SchedClass) (h : Hook) :
    Quiet s (s.callOther other cls h) := ⟨rfl, rfl, rfl, rfl, rfl, rfl, rfl⟩

theorem reschedCurr_quiet (s : Sys X) : Quiet s s.reschedCurr :=
  ⟨rfl, rfl, rfl, rfl, rfl, rfl, rfl⟩

/-- Two tasks that differ at most in their priority and their class entities. -/
structure SameTask (t t' : TaskStruct) : Prop where
  state : t'.state = t.state
  onRq : t'.onRq = t.onRq
  staticPrio : t'.staticPrio = t.staticPrio
  normalPrio : t'.normalPrio = t.normalPrio
  rtPriority : t'.rtPriority = t.rtPriority
  schedClass : t'.schedClass = t.schedClass
  policy : t'.policy = t.policy
  hasMm : t'.hasMm = t.hasMm
  schedResetOnFork : t'.schedResetOnFork = t.schedResetOnFork
  piTopTask : t'.piTopTask = t.piTopTask

theorem SameTask.refl (t : TaskStruct) : SameTask t t :=
  ⟨rfl, rfl, rfl, rfl, rfl, rfl, rfl, rfl, rfl, rfl⟩

theorem SameTask.trans {t t' t'' : TaskStruct} (h : SameTask t t') (h' : SameTask t' t'') :
    SameTask t t'' :=
  ⟨h'.state.trans h.state, h'.onRq.trans h.onRq, h'.staticPrio.trans h.staticPrio,
    h'.normalPrio.trans h.normalPrio, h'.rtPriority.trans h.rtPriority,
    h'.schedClass.trans h.schedClass, h'.policy.trans h.policy, h'.hasMm.trans h.hasMm,
    h'.schedResetOnFork.trans h.schedResetOnFork, h'.piTopTask.trans h.piTopTask⟩

/-- `s'` is `s` but for the queues, the counters, and the class data of `p`. -/
structure Owns (p : TaskId) (s s' : Sys X) : Prop where
  frame : ∀ q, q ≠ p → s'.task q = s.task q
  self : SameTask (s.task p) (s'.task p)
  curr : s'.curr = s.curr
  idle : s'.idle = s.idle
  stop : s'.stop = s.stop

theorem Owns.refl (p : TaskId) (s : Sys X) : Owns p s s :=
  ⟨fun _ _ => rfl, SameTask.refl _, rfl, rfl, rfl⟩

theorem Owns.trans {p : TaskId} {s s' s'' : Sys X} (h : Owns p s s') (h' : Owns p s' s'') :
    Owns p s s'' :=
  ⟨fun q hq => (h'.frame q hq).trans (h.frame q hq), h.self.trans h'.self,
    h'.curr.trans h.curr, h'.idle.trans h.idle, h'.stop.trans h.stop⟩

theorem Quiet.owns {s s' : Sys X} (h : Quiet s s') (p : TaskId) : Owns p s s' := by
  refine ⟨fun q _ => by rw [h.task], ?_, h.curr, h.idle, h.stop⟩
  rw [h.task]
  exact SameTask.refl _

/-- No task's fields outside its class data are touched. -/
theorem Owns.sameTask {p : TaskId} {s s' : Sys X} (h : Owns p s s') (q : TaskId) :
    SameTask (s.task q) (s'.task q) := by
  by_cases hq : q = p
  · subst hq
    exact h.self
  · rw [h.frame q hq]
    exact SameTask.refl _

/-- `s'` is `s` but for the queues, the counters, and how `p` is scheduled: whether `p` is
runnable and queued is as before. -/
structure Keeps (p : TaskId) (s s' : Sys X) : Prop where
  frame : ∀ q, q ≠ p → s'.task q = s.task q
  state : (s'.task p).state = (s.task p).state
  onRq : (s'.task p).onRq = (s.task p).onRq
  curr : s'.curr = s.curr
  idle : s'.idle = s.idle
  stop : s'.stop = s.stop

theorem Keeps.trans {p : TaskId} {s s' s'' : Sys X} (h : Keeps p s s') (h' : Keeps p s' s'') :
    Keeps p s s'' :=
  ⟨fun q hq => (h'.frame q hq).trans (h.frame q hq), h'.state.trans h.state,
    h'.onRq.trans h.onRq, h'.curr.trans h.curr, h'.idle.trans h.idle, h'.stop.trans h.stop⟩

theorem Owns.keeps {p : TaskId} {s s' : Sys X} (h : Owns p s s') : Keeps p s s' :=
  ⟨h.frame, h.self.state, h.self.onRq, h.curr, h.idle, h.stop⟩

theorem Quiet.keeps {s s' : Sys X} (h : Quiet s s') (p : TaskId) : Keeps p s s' :=
  (h.owns p).keeps

theorem Keeps.onRq_eq {p : TaskId} {s s' : Sys X} (h : Keeps p s s') (q : TaskId) :
    (s'.task q).onRq = (s.task q).onRq := by
  by_cases hq : q = p
  · subst hq
    exact h.onRq
  · rw [h.frame q hq]

theorem Keeps.state_eq {p : TaskId} {s s' : Sys X} (h : Keeps p s s') (q : TaskId) :
    (s'.task q).state = (s.task q).state := by
  by_cases hq : q = p
  · subst hq
    exact h.state
  · rw [h.frame q hq]

theorem modify_keeps (s : Sys X) (p : TaskId) {f : TaskStruct → TaskStruct}
    (hstate : (f (s.task p)).state = (s.task p).state)
    (honRq : (f (s.task p)).onRq = (s.task p).onRq) : Keeps p s (s.modify p f) := by
  refine ⟨fun q hq => s.modify_task_of_ne f hq, ?_, ?_, rfl, rfl, rfl⟩
  · rw [s.modify_task_self]
    exact hstate
  · rw [s.modify_task_self]
    exact honRq

theorem modify_owns (s : Sys X) (p : TaskId) (f : TaskStruct → TaskStruct)
    (hf : SameTask (s.task p) (f (s.task p))) : Owns p s (s.modify p f) := by
  refine ⟨fun q hq => s.modify_task_of_ne f hq, ?_, rfl, rfl, rfl⟩
  rw [s.modify_task_self p f]
  exact hf

theorem log_owns (s : Sys X) (p : TaskId) (fs : List Fault) : Owns p s (s.log fs) :=
  ⟨fun _ _ => rfl, SameTask.refl _, rfl, rfl, rfl⟩

/-! ### The time-sharing class -/

theorem tsListAddTail_owns (s : Sys X) (p : TaskId) (idx : Int) :
    Owns p s (tsListAddTail s p idx) := by
  unfold tsListAddTail
  split
  · exact log_owns s p _
  · exact ⟨fun _ _ => rfl, SameTask.refl _, rfl, rfl, rfl⟩

theorem tsListDel_owns (s : Sys X) (p : TaskId) : Owns p s (tsListDel s p) :=
  ⟨fun _ _ => rfl, SameTask.refl _, rfl, rfl, rfl⟩

theorem tsListMoveTail_owns (s : Sys X) (p : TaskId) (idx : Int) :
    Owns p s (tsListMoveTail s p idx) :=
  (tsListDel_owns s p).trans (tsListAddTail_owns _ p idx)

theorem enqueueTaskTs_owns (s : Sys X) (p : TaskId) (flags : QueueFlags) :
    Owns p s (enqueueTaskTs s p flags) := by
  unfold enqueueTaskTs
  by_cases hw : flags.wakeup = true
  · simp only [hw, if_true]
    refine Owns.trans ?_ (tsListAddTail_owns _ p _)
    refine (log_owns s p _).trans (modify_owns _ p _ ?_)
    exact ⟨rfl, rfl, rfl, rfl, rfl, rfl, rfl, rfl, rfl, rfl⟩
  · simp only [hw, if_false, Bool.false_eq_true]
    exact tsListAddTail_owns s p _

theorem expireTimeSlice_owns (s : Sys X) (p : TaskId) : Owns p s (expireTimeSlice s p) := by
  unfold expireTimeSlice
  refine Owns.trans ?_ ((reschedCurr_quiet _).owns p)
  refine Owns.trans ?_ (tsListMoveTail_owns _ p _)
  refine (log_owns s p _).trans (modify_owns _ p _ ?_)
  exact ⟨rfl, rfl, rfl, rfl, rfl, rfl, rfl, rfl, rfl, rfl⟩

theorem taskTickTs_owns (s : Sys X) (p : TaskId) : Owns p s (taskTickTs s p) := by
  unfold taskTickTs
  split
  · exact Owns.refl p s
  · have hdec : Owns p s ((s.log (if (s.task p).ts.timeSlice = 0 then [.sliceWrap] else [])).modify p
        fun t => { t with ts := { t.ts with timeSlice := decTimeSlice (s.task p).ts.timeSlice } }) := by
      refine (log_owns s p _).trans (modify_owns _ p _ ?_)
      exact ⟨rfl, rfl, rfl, rfl, rfl, rfl, rfl, rfl, rfl, rfl⟩
    simp only
    split
    · exact hdec
    · exact hdec.trans (expireTimeSlice_owns _ p)

theorem checkPreemptCurrTs_quiet (s : Sys X) (p : TaskId) :
    Quiet s (checkPreemptCurrTs s p) := by
  unfold checkPreemptCurrTs
  split
  · exact reschedCurr_quiet s
  · exact Quiet.refl s

/-! ### The real-time class -/

/-- `s'` is `s` but for what `rt.c` keeps: its queue, its counters, `nr_running`, and the
`rt` entity of `p`. -/
structure OnlyRt (p : TaskId) (s s' : Sys X) : Prop where
  frame : ∀ q, q ≠ p → s'.task q = s.task q
  self : { s'.task p with rt := (s.task p).rt } = s.task p
  curr : s'.curr = s.curr
  idle : s'.idle = s.idle
  stop : s'.stop = s.stop
  needResched : s'.needResched = s.needResched
  hNrRunning : s'.hNrRunning = s.hNrRunning
  tsQueue : s'.tsQueue = s.tsQueue
  rtThrottled : s'.rtThrottled = s.rtThrottled
  faults : s'.faults = s.faults

theorem OnlyRt.refl (p : TaskId) (s : Sys X) : OnlyRt p s s :=
  ⟨fun _ _ => rfl, rfl, rfl, rfl, rfl, rfl, rfl, rfl, rfl, rfl⟩

theorem OnlyRt.trans {p : TaskId} {s s' s'' : Sys X} (h : OnlyRt p s s')
    (h' : OnlyRt p s' s'') : OnlyRt p s s'' := by
  refine ⟨fun q hq => (h'.frame q hq).trans (h.frame q hq), ?_, h'.curr.trans h.curr,
    h'.idle.trans h.idle, h'.stop.trans h.stop, h'.needResched.trans h.needResched,
    h'.hNrRunning.trans h.hNrRunning, h'.tsQueue.trans h.tsQueue,
    h'.rtThrottled.trans h.rtThrottled, h'.faults.trans h.faults⟩
  have h1 := h.self
  rw [← h'.self] at h1
  exact h1

theorem OnlyRt.eq_self {p : TaskId} {s s' : Sys X} (h : OnlyRt p s s') :
    s'.task p = { s.task p with rt := (s'.task p).rt } := by
  rw [← h.self]

theorem OnlyRt.owns {p : TaskId} {s s' : Sys X} (h : OnlyRt p s s') : Owns p s s' := by
  refine ⟨h.frame, ?_, h.curr, h.idle, h.stop⟩
  rw [h.eq_self]
  exact ⟨rfl, rfl, rfl, rfl, rfl, rfl, rfl, rfl, rfl, rfl⟩

theorem OnlyRt.prio {p : TaskId} {s s' : Sys X} (h : OnlyRt p s s') (q : TaskId) :
    (s'.task q).prio = (s.task q).prio := by
  by_cases hq : q = p
  · subst hq
    rw [h.eq_self]
  · rw [h.frame q hq]

theorem OnlyRt.ts {p : TaskId} {s s' : Sys X} (h : OnlyRt p s s') (q : TaskId) :
    (s'.task q).ts = (s.task q).ts := by
  by_cases hq : q = p
  · subst hq
    rw [h.eq_self]
  · rw [h.frame q hq]

theorem modifyRt_onlyRt (s : Sys X) (p : TaskId) (g : SchedRtEntity → SchedRtEntity) :
    OnlyRt p s (s.modify p fun t => { t with rt := g t.rt }) := by
  refine ⟨fun q hq => s.modify_task_of_ne _ hq, ?_, rfl, rfl, rfl, rfl, rfl, rfl, rfl, rfl⟩
  rw [s.modify_task_self]

theorem dequeueTopRtRq_onlyRt (s : Sys X) (p : TaskId) : OnlyRt p s (dequeueTopRtRq s) := by
  unfold dequeueTopRtRq
  split
  · exact OnlyRt.refl p s
  · exact ⟨fun _ _ => rfl, rfl, rfl, rfl, rfl, rfl, rfl, rfl, rfl, rfl⟩

theorem enqueueTopRtRq_onlyRt (s : Sys X) (p : TaskId) : OnlyRt p s (enqueueTopRtRq s) := by
  unfold enqueueTopRtRq
  split
  · exact OnlyRt.refl p s
  · split
    · exact OnlyRt.refl p s
    · split
      · exact ⟨fun _ _ => rfl, rfl, rfl, rfl, rfl, rfl, rfl, rfl, rfl, rfl⟩
      · exact OnlyRt.refl p s

theorem incRtTasks_onlyRt (s : Sys X) (p : TaskId) : OnlyRt p s (incRtTasks s p) := by
  unfold incRtTasks incRtPrio
  split <;> exact ⟨fun _ _ => rfl, rfl, rfl, rfl, rfl, rfl, rfl, rfl, rfl, rfl⟩

theorem decRtTasks_onlyRt (s : Sys X) (p : TaskId) : OnlyRt p s (decRtTasks s p) := by
  unfold decRtTasks decRtPrio
  split
  · split <;> exact ⟨fun _ _ => rfl, rfl, rfl, rfl, rfl, rfl, rfl, rfl, rfl, rfl⟩
  · exact ⟨fun _ _ => rfl, rfl, rfl, rfl, rfl, rfl, rfl, rfl, rfl, rfl⟩

theorem delistRtEntity_onlyRt (s : Sys X) (p : TaskId) : OnlyRt p s (delistRtEntity s p) := by
  unfold delistRtEntity
  refine OnlyRt.trans ?_ (modifyRt_onlyRt _ p fun r => { r with onList := false })
  exact ⟨fun _ _ => rfl, rfl, rfl, rfl, rfl, rfl, rfl, rfl, rfl, rfl⟩

theorem enlistRtEntity_onlyRt (s : Sys X) (p : TaskId) (flags : QueueFlags) :
    OnlyRt p s (enlistRtEntity s p flags) := by
  unfold enlistRtEntity
  split
  · exact OnlyRt.refl p s
  · refine OnlyRt.trans ?_ (modifyRt_onlyRt _ p fun r => { r with onList := true })
    exact ⟨fun _ _ => rfl, rfl, rfl, rfl, rfl, rfl, rfl, rfl, rfl, rfl⟩

theorem enqueueRtEntityOnce_onlyRt (s : Sys X) (p : TaskId) (flags : QueueFlags) :
    OnlyRt p s (enqueueRtEntityOnce s p flags) := by
  unfold enqueueRtEntityOnce
  refine OnlyRt.trans ?_ (incRtTasks_onlyRt _ p)
  refine OnlyRt.trans ?_ (modifyRt_onlyRt _ p fun r => { r with onRq := true })
  split
  · exact enlistRtEntity_onlyRt s p flags
  · exact OnlyRt.refl p s

theorem dequeueRtEntityOnce_onlyRt (s : Sys X) (p : TaskId) (flags : QueueFlags) :
    OnlyRt p s (dequeueRtEntityOnce s p flags) := by
  unfold dequeueRtEntityOnce
  refine OnlyRt.trans ?_ (decRtTasks_onlyRt _ p)
  refine OnlyRt.trans ?_ (modifyRt_onlyRt _ p fun r => { r with onRq := false })
  split
  · exact delistRtEntity_onlyRt s p
  · exact OnlyRt.refl p s

theorem dequeueRtStack_onlyRt (s : Sys X) (p : TaskId) (flags : QueueFlags) :
    OnlyRt p s (dequeueRtStack s p flags) := by
  unfold dequeueRtStack
  refine (dequeueTopRtRq_onlyRt s p).trans ?_
  dsimp only
  split
  · exact dequeueRtEntityOnce_onlyRt _ p flags
  · exact OnlyRt.refl p _

theorem dequeueRtEntity_onlyRt (s : Sys X) (p : TaskId) (flags : QueueFlags) :
    OnlyRt p s (dequeueRtEntity s p flags) :=
  (dequeueRtStack_onlyRt s p flags).trans (enqueueTopRtRq_onlyRt _ p)

theorem enqueueTaskRt_onlyRt (s : Sys X) (p : TaskId) (flags : QueueFlags) :
    OnlyRt p s (enqueueTaskRt s p flags) := by
  unfold enqueueTaskRt enqueueRtEntity
  refine OnlyRt.trans ?_ (enqueueTopRtRq_onlyRt _ p)
  refine OnlyRt.trans ?_ (enqueueRtEntityOnce_onlyRt _ p flags)
  refine OnlyRt.trans ?_ (dequeueRtStack_onlyRt _ p flags)
  split
  · exact modifyRt_onlyRt s p fun r => { r with timeout := 0 }
  · exact OnlyRt.refl p s

theorem requeueTaskRt_onlyRt (s : Sys X) (p : TaskId) : OnlyRt p s (requeueTaskRt s p) := by
  unfold requeueTaskRt
  split
  · split
    · exact OnlyRt.refl p s
    · exact ⟨fun _ _ => rfl, rfl, rfl, rfl, rfl, rfl, rfl, rfl, rfl, rfl⟩
  · exact OnlyRt.refl p s

theorem checkPreemptCurrRt_quiet (s : Sys X) (p : TaskId) :
    Quiet s (checkPreemptCurrRt s p) := by
  unfold checkPreemptCurrRt
  split
  · exact reschedCurr_quiet s
  · exact Quiet.refl s

theorem switchedToRt_quiet (s : Sys X) (p : TaskId) : Quiet s (switchedToRt s p) := by
  unfold switchedToRt
  split
  · exact reschedCurr_quiet s
  · exact Quiet.refl s

theorem prioChangedRt_quiet (s : Sys X) (p : TaskId) (oldprio : Int) :
    Quiet s (prioChangedRt s p oldprio) := by
  unfold prioChangedRt
  repeat' split
  all_goals first | exact reschedCurr_quiet s | exact Quiet.refl s

variable (other : OtherClasses X)

/-! ### Throttling -/

/-- `s'` is `s` but for what throttling changes: private data, `nr_running`, the two flags of
`rt_rq` and the reschedule mark. -/
structure Timed (s s' : Sys X) : Prop extends Quiet s s' where
  hNrRunning : s'.hNrRunning = s.hNrRunning
  wakeListEmpty : s'.wakeListEmpty = s.wakeListEmpty
  rtBitmap : s'.rtBitmap = s.rtBitmap
  rtNrRunning : s'.rtNrRunning = s.rtNrRunning
  rrNrRunning : s'.rrNrRunning = s.rrNrRunning
  rtHighestPrio : s'.rtHighestPrio = s.rtHighestPrio

theorem Timed.refl (s : Sys X) : Timed s s := ⟨Quiet.refl s, rfl, rfl, rfl, rfl, rfl, rfl⟩

theorem Timed.trans {s s' s'' : Sys X} (h : Timed s s') (h' : Timed s' s'') : Timed s s'' :=
  ⟨h.toQuiet.trans h'.toQuiet, h'.hNrRunning.trans h.hNrRunning,
    h'.wakeListEmpty.trans h.wakeListEmpty, h'.rtBitmap.trans h.rtBitmap,
    h'.rtNrRunning.trans h.rtNrRunning, h'.rrNrRunning.trans h.rrNrRunning,
    h'.rtHighestPrio.trans h.rtHighestPrio⟩

theorem dequeueTopRtRq_timed (s : Sys X) : Timed s (dequeueTopRtRq s) := by
  unfold dequeueTopRtRq
  split
  · exact Timed.refl s
  · exact ⟨⟨rfl, rfl, rfl, rfl, rfl, rfl, rfl⟩, rfl, rfl, rfl, rfl, rfl, rfl⟩

theorem enqueueTopRtRq_timed (s : Sys X) : Timed s (enqueueTopRtRq s) := by
  unfold enqueueTopRtRq
  repeat' split
  all_goals first
    | exact Timed.refl s
    | exact ⟨⟨rfl, rfl, rfl, rfl, rfl, rfl, rfl⟩, rfl, rfl, rfl, rfl, rfl, rfl⟩

theorem schedRtRqEnqueue_timed (s : Sys X) : Timed s (schedRtRqEnqueue s) := by
  unfold schedRtRqEnqueue
  split
  · exact Timed.refl s
  · refine (enqueueTopRtRq_timed s).trans ?_
    exact ⟨reschedCurr_quiet _, rfl, rfl, rfl, rfl, rfl, rfl⟩

/-- Only a real-time task is charged for its time. -/
theorem updateCurrRt_of_ne {s : Sys X} (h : (s.task s.curr).schedClass ≠ .rt) :
    updateCurrRt other s = s := if_pos h

/-- What accounting for the running task can come to: nothing but a mark, or the CPU is throttled
and its real-time tasks go off the runqueue. -/
theorem updateCurrRt_cases (s : Sys X) :
    (∃ mark, updateCurrRt other s = { s with priv := (other.rtAccount s).priv, needResched := mark })
      ∨ updateCurrRt other s = s
      ∨ updateCurrRt other s
        = (dequeueTopRtRq
            { s with priv := (other.rtAccount s).priv, rtThrottled := true }).reschedCurr := by
  unfold updateCurrRt schedRtRuntimeExceeded
  simp only
  split
  · exact Or.inr (Or.inl rfl)
  · split
    · exact Or.inl ⟨s.needResched, rfl⟩
    · split
      · exact Or.inl ⟨true, rfl⟩
      · split
        · exact Or.inr (Or.inr rfl)
        · exact Or.inl ⟨s.needResched, rfl⟩

theorem updateCurrRt_timed (s : Sys X) : Timed s (updateCurrRt other s) := by
  rcases updateCurrRt_cases other s with ⟨mark, heq⟩ | heq | heq
  · rw [heq]
    exact ⟨⟨rfl, rfl, rfl, rfl, rfl, rfl, rfl⟩, rfl, rfl, rfl, rfl, rfl, rfl⟩
  · rw [heq]
    exact Timed.refl s
  · rw [heq]
    have htop := dequeueTopRtRq_timed
      { s with priv := (other.rtAccount s).priv, rtThrottled := true }
    exact ⟨⟨htop.task, htop.curr, htop.idle, htop.stop, htop.tsQueue, htop.rtQueue, htop.faults⟩,
      htop.hNrRunning, htop.wakeListEmpty, htop.rtBitmap, htop.rtNrRunning, htop.rrNrRunning,
      htop.rtHighestPrio⟩

theorem doSchedRtPeriodTimer_timed (s : Sys X) : Timed s (doSchedRtPeriodTimer other s) := by
  have hpriv : ∀ throttled, Timed s
      { s with priv := (other.rtPeriod s).priv, rtThrottled := throttled } := fun _ =>
    ⟨⟨rfl, rfl, rfl, rfl, rfl, rfl, rfl⟩, rfl, rfl, rfl, rfl, rfl, rfl⟩
  unfold doSchedRtPeriodTimer
  simp only
  split
  · split
    · exact (hpriv false).trans (schedRtRqEnqueue_timed _)
    · exact hpriv s.rtThrottled
  · split
    · exact hpriv s.rtThrottled
    · exact (hpriv s.rtThrottled).trans (schedRtRqEnqueue_timed _)

theorem dequeueTaskRt_owns (s : Sys X) (p : TaskId) (flags : QueueFlags) :
    Owns p s (dequeueTaskRt other s p flags) :=
  ((updateCurrRt_timed other s).owns p).trans (dequeueRtEntity_onlyRt _ p flags).owns

theorem dequeueTaskRt_prio (s : Sys X) (p : TaskId) (flags : QueueFlags) (q : TaskId) :
    ((dequeueTaskRt other s p flags).task q).prio = (s.task q).prio ∧
      ((dequeueTaskRt other s p flags).task q).ts = (s.task q).ts := by
  have h := dequeueRtEntity_onlyRt (updateCurrRt other s) p flags
  have htask := (updateCurrRt_timed other s).task
  rw [← htask]
  exact ⟨h.prio q, h.ts q⟩

/-! ### Dispatch over the classes -/

theorem enqueueTask_owns (s : Sys X) (p : TaskId) (flags : QueueFlags) :
    Owns p s (enqueueTask other s p flags) := by
  unfold enqueueTask
  split
  · exact enqueueTaskTs_owns s p flags
  · exact (enqueueTaskRt_onlyRt s p flags).owns
  · exact (callOther_quiet other s _ _).owns p

theorem dequeueTask_owns (s : Sys X) (p : TaskId) (flags : QueueFlags) :
    Owns p s (dequeueTask other s p flags) := by
  unfold dequeueTask
  split
  · exact tsListDel_owns s p
  · exact dequeueTaskRt_owns other s p flags
  · exact (callOther_quiet other s _ _).owns p

theorem taskTickRt_owns (s : Sys X) (p : TaskId) : Owns p s (taskTickRt other s p) := by
  unfold taskTickRt
  refine ((updateCurrRt_timed other s).owns p).trans ?_
  generalize updateCurrRt other s = s
  simp only
  split
  · exact Owns.refl p s
  · have h1 := (modifyRt_onlyRt s p fun r =>
      { r with timeSlice := ((s.task p).rt.timeSlice + (2 ^ 32 - 1)) % 2 ^ 32 }).owns
    have h2 := h1.trans (modifyRt_onlyRt _ p fun r => { r with timeSlice := other.rrTimeslice }).owns
    split
    · exact h1
    · split
      · exact (h2.trans (requeueTaskRt_onlyRt _ p).owns).trans ((reschedCurr_quiet _).owns p)
      · exact h2

theorem taskTickRt_tsQueue (s : Sys X) (p : TaskId) :
    (taskTickRt other s p).tsQueue = s.tsQueue := by
  unfold taskTickRt
  rw [← (updateCurrRt_timed other s).tsQueue]
  generalize updateCurrRt other s = s
  simp only
  split
  · rfl
  · split
    · rfl
    · split
      · exact (requeueTaskRt_onlyRt _ p).tsQueue
      · rfl

theorem taskTickRt_prio (s : Sys X) (p q : TaskId) :
    ((taskTickRt other s p).task q).prio = (s.task q).prio := by
  unfold taskTickRt
  rw [← (updateCurrRt_timed other s).task]
  generalize updateCurrRt other s = s
  simp only
  split
  · rfl
  · have h1 := modifyRt_onlyRt s p fun r =>
      { r with timeSlice := ((s.task p).rt.timeSlice + (2 ^ 32 - 1)) % 2 ^ 32 }
    have h2 := h1.trans (modifyRt_onlyRt _ p fun r => { r with timeSlice := other.rrTimeslice })
    split
    · exact h1.prio q
    · split
      · exact (h2.trans (requeueTaskRt_onlyRt _ p)).prio q
      · exact h2.prio q

theorem taskTick_owns (s : Sys X) (p : TaskId) : Owns p s (taskTick other s p) := by
  unfold taskTick
  split
  · exact taskTickTs_owns s p
  · exact taskTickRt_owns other s p
  · exact (callOther_quiet other s _ _).owns p

theorem yieldTask_owns (s : Sys X) : Owns s.curr s (yieldTask other s) := by
  unfold yieldTask
  split
  · exact tsListMoveTail_owns s s.curr _
  · exact (requeueTaskRt_onlyRt s s.curr).owns
  · exact (callOther_quiet other s _ _).owns s.curr

theorem putPrevTask_quiet (s : Sys X) (p : TaskId) : Quiet s (putPrevTask other s p) := by
  unfold putPrevTask
  split
  · exact Quiet.refl s
  · exact (updateCurrRt_timed other s).toQuiet
  · exact callOther_quiet other s _ _

theorem taskSchedRuntime_quiet (s : Sys X) (p : TaskId) : Quiet s (taskSchedRuntime other s p) := by
  unfold taskSchedRuntime updateCurr
  split
  · split
    · exact Quiet.refl s
    · exact (updateCurrRt_timed other s).toQuiet
    · exact callOther_quiet other s _ _
  · exact Quiet.refl s

theorem setCurrTask_quiet (s : Sys X) (p : TaskId) : Quiet s (setCurrTask other s p) := by
  unfold setCurrTask
  split
  · exact Quiet.refl s
  · exact Quiet.refl s
  · exact callOther_quiet other s _ _

theorem setCurrIf_quiet (s : Sys X) (p : TaskId) (running : Bool) :
    Quiet s (setCurrIf other s p running) := by
  unfold setCurrIf
  split
  · exact setCurrTask_quiet other s p
  · exact Quiet.refl s

theorem setLoadWeight_quiet (s : Sys X) (p : TaskId) (updateLoad : Bool) :
    Quiet s (setLoadWeight other s p updateLoad) := by
  unfold setLoadWeight
  split
  · exact Quiet.refl s
  · split
    · exact callOther_quiet other s _ _
    · exact Quiet.refl s

theorem checkPreemptCurr_quiet (s : Sys X) (p : TaskId) (flags : Nat) :
    Quiet s (checkPreemptCurr other s p flags) := by
  unfold checkPreemptCurr
  split
  · split
    · exact checkPreemptCurrTs_quiet s p
    · exact checkPreemptCurrRt_quiet s p
    · exact callOther_quiet other s _ _
  · split
    · exact reschedCurr_quiet s
    · exact Quiet.refl s

theorem switchedTo_quiet (s : Sys X) (p : TaskId) : Quiet s (switchedTo other s p) := by
  unfold switchedTo
  split
  · exact Quiet.refl s
  · exact switchedToRt_quiet s p
  · exact callOther_quiet other s _ _

theorem switchedFrom_quiet (s : Sys X) (prevClass : SchedClass) (p : TaskId) :
    Quiet s (switchedFrom other s prevClass p) := by
  unfold switchedFrom
  split
  · exact Quiet.refl s
  · exact Quiet.refl s
  · exact callOther_quiet other s _ _

theorem prioChanged_quiet (s : Sys X) (p : TaskId) (oldprio : Int) :
    Quiet s (prioChanged other s p oldprio) := by
  unfold prioChanged
  split
  · exact Quiet.refl s
  · exact prioChangedRt_quiet s p oldprio
  · exact callOther_quiet other s _ _

theorem checkClassChanged_quiet (s : Sys X) (p : TaskId) (prevClass : SchedClass)
    (oldprio : Int) : Quiet s (checkClassChanged other s p prevClass oldprio) := by
  unfold checkClassChanged
  split
  · exact (switchedFrom_quiet other s prevClass p).trans (switchedTo_quiet other _ p)
  · split
    · exact prioChanged_quiet other s p oldprio
    · exact Quiet.refl s

/-- Taking a task off its queue leaves its priority and its slice alone. -/
theorem dequeueTask_prio (s : Sys X) (p : TaskId) (flags : QueueFlags) (q : TaskId) :
    ((dequeueTask other s p flags).task q).prio = (s.task q).prio ∧
      ((dequeueTask other s p flags).task q).ts = (s.task q).ts := by
  unfold dequeueTask
  split
  · exact ⟨rfl, rfl⟩
  · exact dequeueTaskRt_prio other s p flags q
  · exact ⟨rfl, rfl⟩

theorem takeOff_owns (s : Sys X) (p : TaskId) (flags : QueueFlags) :
    Owns p s (takeOff other s p flags) := by
  have hdeq : Owns p s (if (s.task p).onRq then dequeueTask other s p flags else s) := by
    split
    · exact dequeueTask_owns other s p flags
    · exact Owns.refl p s
  unfold takeOff
  simp only
  split
  · exact hdeq.trans ((putPrevTask_quiet other _ p).owns p)
  · exact hdeq

theorem takeOff_prio (s : Sys X) (p : TaskId) (flags : QueueFlags) (q : TaskId) :
    ((takeOff other s p flags).task q).prio = (s.task q).prio ∧
      ((takeOff other s p flags).task q).ts = (s.task q).ts := by
  have hdeq : ((if (s.task p).onRq then dequeueTask other s p flags else s).task q).prio
        = (s.task q).prio ∧
      ((if (s.task p).onRq then dequeueTask other s p flags else s).task q).ts
        = (s.task q).ts := by
    split
    · exact dequeueTask_prio other s p flags q
    · exact ⟨rfl, rfl⟩
  unfold takeOff
  simp only
  split
  · rw [(putPrevTask_quiet other _ p).task]
    exact hdeq
  · exact hdeq

theorem enqueueIf_owns (s : Sys X) (p : TaskId) (queued : Bool) (flags : QueueFlags) :
    Owns p s (enqueueIf other s p queued flags) := by
  unfold enqueueIf
  split
  · exact enqueueTask_owns other s p flags
  · exact Owns.refl p s

end Sched
