/-
What holds in every state the machine reaches.

A run starts in a `Boot` state: the queues as `init_ts_rq` and `init_rt_rq` leave
them, every task as `__sched_fork` leaves it, with the priority and the class its
policy gives it, and no time-sharing or real-time task queued yet.  From there any
operations may follow in any order.
-/
import KernelProgramming.Proofs.Sched.Change
import KernelProgramming.Sched.QueueFair

namespace Sched

variable {X : Type} {other : OtherClasses X} {s s' t : Sys X} {p : TaskId}

/-- A task before anything has happened to it. -/
structure Fresh (t : TaskStruct) : Prop where
  static : 100 ≤ t.staticPrio ∧ t.staticPrio ≤ 139
  rtPriority : t.policy.rtPolicy = true → 1 ≤ t.rtPriority ∧ t.rtPriority ≤ 99
  normal : t.normalPrio = normalPrio t
  prio : t.prio = t.normalPrio
  slice : t.ts.timeSlice = 12
  rtOff : t.rt.onRq = false
  donor : t.piTopTask = none
  new : t.state = .new → t.onRq = false

/-- The class `__setscheduler` would give the task. -/
def homeClass (t : TaskStruct) : SchedClass :=
  if dlPrio t.prio then .dl else classOf t.prio t.policy

/-- A runqueue as the kernel sets it up. -/
structure Boot (s : Sys X) : Prop where
  tsQueue : s.tsQueue = initTsRq
  rtQueue : s.rtQueue = Levels.empty
  faults : s.faults = []
  tasks : ∀ q, Fresh (s.task q)
  curr : (s.task s.curr).onRq = true
  idle : (s.task s.idle).onRq = true ∧ (s.task s.idle).state = .running ∧
    (s.task s.idle).schedClass = .idle ∧ 0 ≤ (s.task s.idle).prio
  stop : ∀ q, s.stop = some q → (s.task q).schedClass = .stop ∧ 0 ≤ (s.task q).prio
  home : ∀ q, q ≠ s.idle → s.stop ≠ some q → (s.task q).schedClass = homeClass (s.task q)
  unqueued : ∀ q, (s.task q).onRq = true →
    (s.task q).schedClass ≠ .ts ∧ (s.task q).schedClass ≠ .rt

theorem homeClass_ok (t : TaskStruct) : ClassOK (homeClass t) t.prio := by
  unfold homeClass
  split
  · rename_i hdl
    exact dlPrio_eq_true.mp hdl
  · rename_i hdl
    exact classOf_ok (by simpa using hdl) _

theorem homeClass_ts {t : TaskStruct} (h : homeClass t = .ts) : t.policy = .ts := by
  unfold homeClass at h
  split at h
  · simp at h
  · exact classOf_ts h

theorem homeClass_ne (t : TaskStruct) : homeClass t ≠ .stop ∧ homeClass t ≠ .idle := by
  unfold homeClass
  split
  · simp
  · exact classOf_ne _ _

theorem Fresh.taskOK {t : TaskStruct} (h : Fresh t) (hcls : ClassOK t.schedClass t.prio)
    (hts : t.schedClass = .ts → t.policy = .ts) : TaskOK t := by
  have hn : PrioOK t.normalPrio := by
    rw [h.normal]
    exact normalPrio_ok h.static h.rtPriority
  have hslice := h.slice
  refine ⟨h.static, h.rtPriority, hn, by rw [h.prio]; exact hn, by omega, hcls, hts, ?_⟩
  intro hdl
  have hneg : t.normalPrio < 0 := by
    rw [h.normal, normalPrio, if_pos hdl]
    omega
  exact ⟨hneg, by rw [h.prio]; exact hneg⟩

theorem Boot.taskOK (h : Boot s) (q : TaskId) : TaskOK (s.task q) := by
  by_cases hidle : q = s.idle
  · subst hidle
    obtain ⟨-, -, hcls, hprio⟩ := h.idle
    refine (h.tasks _).taskOK ?_ ?_
    · rw [hcls]
      exact hprio
    · intro hts
      rw [hcls] at hts
      simp at hts
  · by_cases hstop : s.stop = some q
    · obtain ⟨hcls, hprio⟩ := h.stop q hstop
      refine (h.tasks q).taskOK ?_ ?_
      · rw [hcls]
        exact hprio
      · intro hts
        rw [hcls] at hts
        simp at hts
    · have hcls := h.home q hidle hstop
      refine (h.tasks q).taskOK ?_ ?_
      · rw [hcls]
        exact homeClass_ok _
      · intro hts
        rw [hcls] at hts
        exact homeClass_ts hts

theorem Boot.inv (h : Boot s) : Inv s := by
  have hlinked : LinkedOnRq s := by
    refine ⟨h.taskOK, ?_, ?_, ?_, h.faults⟩
    · intro q
      rw [h.tsQueue, if_neg fun hq => (h.unqueued q hq.1).1 hq.2]
      exact Levels.count_empty q
    · intro q
      rw [h.rtQueue, if_neg (by simpa using fun hq => (h.unqueued q hq).2)]
      exact Levels.count_empty q
    · intro q
      rw [(h.tasks q).rtOff]
      simpa using fun hq => (h.unqueued q hq).2
  refine ⟨⟨hlinked, ⟨h.idle.1, h.idle.2.1⟩, fun q => (h.tasks q).new, ?_, ?_⟩, h.curr⟩
  · intro q hq
    by_contra hstop
    by_cases hidle : q = s.idle
    · rw [hidle, h.idle.2.2.1] at hq
      simp at hq
    · rw [h.home q hidle hstop] at hq
      exact (homeClass_ne _).1 hq
  · intro q hq
    by_contra hidle
    by_cases hstop : s.stop = some q
    · rw [(h.stop q hstop).1] at hq
      simp at hq
    · rw [h.home q hidle hstop] at hq
      exact (homeClass_ne _).2 hq

/-- **Every operation keeps the invariant.** -/
theorem step_inv {op : Op} (h : Inv s) (hstep : step other s op = some s') : Inv s' := by
  obtain ⟨hen, rfl⟩ := step_eq_some hstep
  cases op with
  | schedFork child => exact schedFork_inv h hen.2.1 hen.2.2
  | wakeUpNewTask p => exact wakeUpNewTask_inv h hen
  | tryToWakeUp p wakeFlags => exact tryToWakeUp_inv h wakeFlags
  | setCurrentState st =>
      refine h.setState ?_ fun heq => absurd heq hen.1
      rintro rfl
      simpa using hen.2
  | schedule preempt signalPending => exact schedule_inv h preempt signalPending
  | doSchedYield signalPending => exact doSchedYield_inv h signalPending
  | doTaskDead => exact doTaskDead_inv h hen
  | schedulerTick => exact schedulerTick_inv h
  | taskSchedRuntime p => exact h.of_quiet (taskSchedRuntime_quiet other s p)
  | doSchedRtPeriodTimer => exact h.of_quiet (doSchedRtPeriodTimer_timed other s).toQuiet
  | setUserNice p nice => exact setUserNice_inv h nice
  | doSetCpusAllowed p => exact doSetCpusAllowed_inv h
  | schedSetscheduler p attr env user pi =>
      exact schedSetscheduler_inv h hen.1 hen.2.2 env user pi
  | rtMutexSetprio p piTask => exact rtMutexSetprio_inv h piTask

theorem run_inv (hboot : Boot s) {ops : List Op} (hrun : Runs.run (step other) s ops = some t) :
    Inv t :=
  Runs.run_invariant (fun _ _ _ h hstep => step_inv h hstep) ops s t hboot.inv hrun

/-! ### The small machine -/

/-- The three kinds of task of `bootSys`. -/
theorem bootSys_task (q : TaskId) (P : TaskStruct → Prop)
    (h0 : P { normalTask .running true with schedClass := .idle })
    (h1 : P (normalTask .running true)) (h2 : P (normalTask .dead false)) :
    P (bootSys.task q) := by
  show P (if q = 0 then _ else if q = 1 then _ else _)
  split
  · exact h0
  · split
    · exact h1
    · exact h2

theorem bootSys_boot : Boot bootSys where
  tsQueue := rfl
  rtQueue := rfl
  faults := rfl
  tasks q := by
    refine bootSys_task q Fresh ?_ ?_ ?_ <;>
      exact ⟨by decide, by decide, rfl, rfl, rfl, rfl, rfl, by decide⟩
  curr := rfl
  idle := by decide
  stop q hq := by simp [bootSys] at hq
  home q hidle _ := by
    refine bootSys_task q (fun t => t.schedClass ≠ .idle → t.schedClass = homeClass t) ?_ ?_ ?_ ?_
    · intro hne
      exact absurd rfl hne
    · intro _
      rfl
    · intro _
      rfl
    · intro hcls
      have hne : ¬q = 0 := hidle
      simp only [bootSys, if_neg hne] at hcls
      split at hcls <;> simp [normalTask] at hcls
  unqueued q := by
    refine bootSys_task q
      (fun t => t.onRq = true → t.schedClass ≠ .ts ∧ t.schedClass ≠ .rt) ?_ ?_ ?_ <;> decide

/-- Two tasks of the class, the first of them running. -/
def forkInTs : List Op := [.toTs 1, .schedFork 2, .wakeUpNewTask 2]

/-- A task sleeps and wakes up at nice 0. -/
def sleepAndWake : List Op :=
  [.toTs 1, .setCurrentState .interruptible, .schedule false false, .tryToWakeUp 1 0]

/-! ### Ranges -/

/-- **Ranges.**  Whatever has happened, a task of the class has a level and a slice, and
`ts.c` has not indexed outside its lists, printed a complaint or let a slice wrap. -/
theorem ts_in_range (hboot : Boot s) {ops : List Op}
    (hrun : Runs.run (step other) s ops = some t) :
    (∀ q, (t.task q).schedClass = .ts →
      (100 ≤ (t.task q).prio ∧ (t.task q).prio ≤ 139) ∧
      (1 ≤ (t.task q).ts.timeSlice ∧ (t.task q).ts.timeSlice ≤ 16)) ∧
    t.faults = [] := by
  have h := run_inv hboot hrun
  refine ⟨?_, h.linked.faults⟩
  intro q hts
  exact ⟨(h.linked.tasks q).ts_range hts, (h.linked.tasks q).slice⟩

/-- A task that has woken has another priority than its nice value gives it. -/
theorem ts_in_range_sleepAndWake :
    ∃ t, Runs.run (step queueFair) bootSys sleepAndWake = some t ∧ (t.task 1).schedClass = .ts ∧
      (t.task 1).prio = 108 ∧ (100 ≤ (t.task 1).prio ∧ (t.task 1).prio ≤ 139) ∧
      (1 ≤ (t.task 1).ts.timeSlice ∧ (t.task 1).ts.timeSlice ≤ 16) ∧ t.faults = [] := by
  have hrun : Runs.run (step queueFair) bootSys sleepAndWake = some _ := rfl
  have hts := ts_in_range bootSys_boot hrun
  exact ⟨_, hrun, rfl, by decide +kernel, (hts.1 1 rfl).1, (hts.1 1 rfl).2, hts.2⟩

/-! ### The order of the lists -/

/-- The lists of `s'` are those of `s` but for where `r` is. -/
def TsOrder (r : TaskId) (s s' : Sys X) : Prop :=
  ∀ i, (s'.tsQueue i).filter (· ≠ r) = (s.tsQueue i).filter (· ≠ r)

theorem TsOrder.of_eq {r : TaskId} (h : s'.tsQueue = s.tsQueue) : TsOrder r s s' := by
  intro i
  rw [h]

theorem TsOrder.trans {r : TaskId} {s'' : Sys X} (h : TsOrder r s s') (h' : TsOrder r s' s'') :
    TsOrder r s s'' := by
  intro i
  rw [h' i, h i]

theorem TsOrder.of_modify {r : TaskId} {f : TaskStruct → TaskStruct}
    (h : TsOrder r (s.modify p f) s') : TsOrder r s s' := h

theorem Quiet.tsOrder (h : Quiet s s') (r : TaskId) : TsOrder r s s' := TsOrder.of_eq h.tsQueue

theorem tsListDel_order (s : Sys X) (p : TaskId) : TsOrder p s (tsListDel s p) :=
  Levels.filter_del s.tsQueue p

theorem tsListAddTail_order (s : Sys X) (p : TaskId) (idx : Int) :
    TsOrder p s (tsListAddTail s p idx) := by
  unfold tsListAddTail
  split
  · exact TsOrder.of_eq rfl
  · exact Levels.filter_addTail s.tsQueue _ p

theorem tsListMoveTail_order (s : Sys X) (p : TaskId) (idx : Int) :
    TsOrder p s (tsListMoveTail s p idx) :=
  (tsListDel_order s p).trans (tsListAddTail_order _ p idx)

theorem enqueueTaskTs_order (s : Sys X) (p : TaskId) (flags : QueueFlags) :
    TsOrder p s (enqueueTaskTs s p flags) := by
  unfold enqueueTaskTs
  refine TsOrder.trans ?_ (tsListAddTail_order _ p _)
  split <;> exact TsOrder.of_eq rfl

theorem taskTickTs_order (s : Sys X) (p : TaskId) : TsOrder p s (taskTickTs s p) := by
  unfold taskTickTs
  split
  · exact TsOrder.of_eq rfl
  · simp only
    split
    · exact TsOrder.of_eq rfl
    · unfold expireTimeSlice
      refine TsOrder.trans ?_ ((reschedCurr_quiet _).tsOrder p)
      refine TsOrder.trans ?_ (tsListMoveTail_order _ p _)
      exact TsOrder.of_eq rfl

theorem enqueueTask_order (s : Sys X) (p : TaskId) (flags : QueueFlags) :
    TsOrder p s (enqueueTask other s p flags) := by
  unfold enqueueTask
  split
  · exact enqueueTaskTs_order s p flags
  · exact TsOrder.of_eq (enqueueTaskRt_onlyRt s p flags).tsQueue
  · exact (callOther_quiet other s _ _).tsOrder p

theorem dequeueTask_order (s : Sys X) (p : TaskId) (flags : QueueFlags) :
    TsOrder p s (dequeueTask other s p flags) := by
  unfold dequeueTask
  split
  · exact tsListDel_order s p
  · exact ((updateCurrRt_timed other s).tsOrder p).trans
      (TsOrder.of_eq (dequeueRtEntity_onlyRt _ p flags).tsQueue)
  · exact (callOther_quiet other s _ _).tsOrder p

theorem takeOff_order (s : Sys X) (p : TaskId) (flags : QueueFlags) :
    TsOrder p s (takeOff other s p flags) := by
  have hdeq : TsOrder p s (if (s.task p).onRq then dequeueTask other s p flags else s) := by
    split
    · exact dequeueTask_order s p flags
    · exact TsOrder.of_eq rfl
  unfold takeOff
  simp only
  split
  · exact hdeq.trans ((putPrevTask_quiet other _ p).tsOrder p)
  · exact hdeq

theorem enqueueIf_order (s : Sys X) (p : TaskId) (queued : Bool) (flags : QueueFlags) :
    TsOrder p s (enqueueIf other s p queued flags) := by
  unfold enqueueIf
  split
  · exact enqueueTask_order s p flags
  · exact TsOrder.of_eq rfl

variable (other) in
theorem schedule_order (h : Inv s) (preempt signalPending : Bool) :
    TsOrder s.curr s (schedule other s preempt signalPending) := by
  have hprev : TsOrder s.curr s (deactivatePrev other s preempt signalPending) := by
    unfold deactivatePrev
    split
    · split
      · exact TsOrder.of_eq rfl
      · exact dequeueTask_order s s.curr _
    · exact TsOrder.of_eq rfl
  obtain ⟨next, v, hquiet, -, heq⟩ := schedule_eq other h preempt signalPending
  rw [heq]
  exact hprev.trans (TsOrder.of_eq hquiet.tsQueue)

theorem tryToWakeUp_order (s : Sys X) (p : TaskId) (wakeFlags : Nat) :
    TsOrder p s (tryToWakeUp other s p wakeFlags) := by
  unfold tryToWakeUp
  split
  · exact TsOrder.of_eq rfl
  · split
    · exact (checkPreemptCurr_quiet other s p wakeFlags).tsOrder p
    · exact (enqueueTask_order s p _).trans ((checkPreemptCurr_quiet other
        (ttwuActivate other s p { wakeup := true, noclock := true }) p wakeFlags).tsOrder p)

variable (other) in
/-- Taking a task off its list and putting it back, whatever happens to it in between. -/
theorem putBack_order {u : Sys X} {flags : QueueFlags}
    (hu : u.tsQueue = (takeOff other s p flags).tsQueue) (queued : Bool) (flags' : QueueFlags) :
    TsOrder p s (enqueueIf other u p queued flags') :=
  ((takeOff_order s p flags).trans (TsOrder.of_eq hu)).trans (enqueueIf_order u p queued flags')

theorem setUserNice_order (s : Sys X) (p : TaskId) (nice : Int) :
    TsOrder p s (setUserNice other s p nice) := by
  rcases setUserNice_cases other s p nice with ⟨-, heq⟩ | ⟨-, ⟨-, heq⟩ | ⟨-, -, u, hu, hback⟩⟩
  · rw [heq]
    exact TsOrder.of_eq rfl
  · rw [heq]
    exact TsOrder.of_eq rfl
  · have hput := putBack_order other hu.tsQueue (s.task p).onRq { restore := true, noclock := true }
    exact hput.trans (hback.tsOrder p)

theorem setschedulerChange_order (s : Sys X) (p : TaskId) (attr : SchedAttr) (policy : Policy)
    (resetFork pi : Bool) :
    TsOrder p s (setschedulerChange other s p attr policy resetFork pi) := by
  unfold setschedulerChange
  simp only
  refine TsOrder.trans ?_ ((checkClassChanged_quiet other _ p _ _).tsOrder p)
  refine TsOrder.trans ?_ ((setCurrIf_quiet other _ p _).tsOrder p)
  exact TsOrder.of_modify (putBack_order other (setscheduler_quiet other attr policy pi).tsQueue _ _)

theorem rtMutexSetprio_order (s : Sys X) (p : TaskId) (piTask : Option TaskId) :
    TsOrder p s (rtMutexSetprio other s p piTask) := by
  rcases rtMutexSetprio_cases other s p piTask rfl with ⟨-, heq | heq⟩ |
    ⟨-, -, flags, flags', -, -, -, hquiet⟩
  · rw [heq]
    exact TsOrder.of_eq rfl
  · rw [heq]
    exact TsOrder.of_eq rfl
  · refine TsOrder.trans ?_ (hquiet.tsOrder p)
    refine TsOrder.of_modify (p := p) (f := fun t => { t with piTopTask := piTask }) ?_
    exact putBack_order other (u := Sys.modify (takeOff other _ p flags) p _) rfl _ _

theorem doSetCpusAllowed_order (s : Sys X) (p : TaskId) :
    TsOrder p s (doSetCpusAllowed other s p) := by
  have hput := putBack_order other (p := p)
    (u := takeOff other s p { restore := true, noclock := true })
    rfl (s.task p).onRq { restore := true, noclock := true }
  exact hput.trans ((setCurrIf_quiet other _ p _).tsOrder p)

theorem yieldTask_order (s : Sys X) : TsOrder s.curr s (yieldTask other s) := by
  unfold yieldTask
  split
  · exact tsListMoveTail_order s s.curr _
  · exact TsOrder.of_eq (requeueTaskRt_onlyRt s s.curr).tsQueue
  · exact (callOther_quiet other s _ _).tsOrder s.curr

theorem taskTick_order (s : Sys X) (p : TaskId) : TsOrder p s (taskTick other s p) := by
  unfold taskTick
  split
  · exact taskTickTs_order s p
  · exact TsOrder.of_eq (taskTickRt_tsQueue other s p)
  · exact (callOther_quiet other s _ _).tsOrder p

/-- An operation moves nobody but the task it is about. -/
theorem step_order {op : Op} (h : Inv s) (hstep : step other s op = some s') :
    TsOrder (op.subject s) s s' := by
  obtain ⟨hen, rfl⟩ := step_eq_some hstep
  cases op with
  | schedFork child =>
      show TsOrder child s (schedFork other s child).2
      unfold schedFork
      simp only
      split
      · exact TsOrder.of_eq rfl
      · split <;> exact TsOrder.of_eq rfl
  | wakeUpNewTask p =>
      refine TsOrder.of_modify (p := p) (f := fun t => { t with state := .running }) ?_
      exact (enqueueTask_order _ p _).trans ((checkPreemptCurr_quiet other _ p 2).tsOrder p)
  | tryToWakeUp p wakeFlags => exact tryToWakeUp_order s p wakeFlags
  | setCurrentState st => exact TsOrder.of_eq rfl
  | schedule preempt signalPending => exact schedule_order other h preempt signalPending
  | doSchedYield signalPending =>
      have hsched := schedule_order other (yieldTask_inv other h) false
        signalPending
      rw [(yieldTask_owns other s).curr] at hsched
      exact (yieldTask_order s).trans hsched
  | doTaskDead =>
      have hsched := schedule_order other
        (h.setState (p := s.curr) (show TaskState.dead ≠ .new by simp) fun heq => absurd heq hen)
        false false
      exact TsOrder.trans (TsOrder.of_eq rfl) hsched
  | schedulerTick => exact taskTick_order s s.curr
  | taskSchedRuntime p => exact (taskSchedRuntime_quiet other s p).tsOrder p
  | doSchedRtPeriodTimer => exact (doSchedRtPeriodTimer_timed other s).tsOrder s.curr
  | setUserNice p nice => exact setUserNice_order s p nice
  | doSetCpusAllowed p => exact doSetCpusAllowed_order s p
  | schedSetscheduler p attr env user pi =>
      show TsOrder p s (schedSetscheduler other env s p attr user pi).2
      unfold schedSetscheduler
      simp only
      split
      · exact TsOrder.of_eq rfl
      · split
        · exact TsOrder.of_eq rfl
        · exact TsOrder.of_eq rfl
        · exact setschedulerChange_order s p attr _ _ pi
  | rtMutexSetprio p piTask => exact rtMutexSetprio_order s p piTask

/--
**Nothing is lost or duplicated.**  In every state a run reaches, the forty lists hold
each queued task of the class exactly once and nobody else, and whatever happens next
leaves everyone but the task it happens to in the order they were in.
-/
theorem tsQueue_exact (hboot : Boot s) {ops : List Op}
    (hrun : Runs.run (step other) s ops = some t) :
    (∀ q, Levels.count t.tsQueue q
      = if (t.task q).onRq = true ∧ (t.task q).schedClass = .ts then 1 else 0) ∧
    (∀ op t', step other t op = some t' → ∀ i a b, a ≠ op.subject t → b ≠ op.subject t →
      (Levels.Before (t'.tsQueue i) a b ↔ Levels.Before (t.tsQueue i) a b)) := by
  have h := run_inv hboot hrun
  refine ⟨h.linked.ts, ?_⟩
  intro op t' hstep i a b ha hb
  exact Levels.before_iff_of_filter (step_order h hstep i) ha hb

theorem tsQueue_exact_forkInTs :
    ∃ t, Runs.run (step queueFair) bootSys forkInTs = some t ∧ t.tsQueue 19 = [1, 2] ∧
      (∀ q, Levels.count t.tsQueue q
        = if (t.task q).onRq = true ∧ (t.task q).schedClass = .ts then 1 else 0) ∧
      (∀ op t', step queueFair t op = some t' → ∀ i a b, a ≠ op.subject t → b ≠ op.subject t →
        (Levels.Before (t'.tsQueue i) a b ↔ Levels.Before (t.tsQueue i) a b)) := by
  have hrun : Runs.run (step queueFair) bootSys forkInTs = some _ := rfl
  exact ⟨_, hrun, by decide +kernel, tsQueue_exact bootSys_boot hrun⟩

end Sched
