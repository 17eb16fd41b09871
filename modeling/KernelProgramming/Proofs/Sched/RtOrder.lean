/-
Nobody is disturbed by what happens to others.

An operation of the scheduler is about one task, its subject.  Here is that it
touches no other `task_struct`, and that on the real-time lists it moves nobody but
the subject.  So two real-time tasks of one priority keep their order for as long as
nothing happens to either of them.
-/
import KernelProgramming.Proofs.Sched.RtRuns

namespace Sched

variable {X : Type} {other : OtherClasses X} {s s' s'' t u : Sys X} {p r : TaskId}

/-- `s'` is `s` for everyone but `r`, on the real-time lists too. -/
structure OnlyMoves (r : TaskId) (s s' : Sys X) : Prop where
  frame : ∀ q, q ≠ r → s'.task q = s.task q
  order : ∀ i, (s'.rtQueue i).filter (· ≠ r) = (s.rtQueue i).filter (· ≠ r)

theorem OnlyMoves.refl (r : TaskId) (s : Sys X) : OnlyMoves r s s := ⟨fun _ _ => rfl, fun _ => rfl⟩

theorem OnlyMoves.trans (h : OnlyMoves r s s') (h' : OnlyMoves r s' s'') : OnlyMoves r s s'' :=
  ⟨fun q hq => (h'.frame q hq).trans (h.frame q hq), fun i => (h'.order i).trans (h.order i)⟩

theorem OnlyMoves.of_queue (hframe : ∀ q, q ≠ r → s'.task q = s.task q)
    (hqueue : s'.rtQueue = s.rtQueue) : OnlyMoves r s s' :=
  ⟨hframe, fun i => by rw [hqueue]⟩

theorem Quiet.onlyMoves (h : Quiet s s') (r : TaskId) : OnlyMoves r s s' :=
  OnlyMoves.of_queue (fun q _ => by rw [h.task]) h.rtQueue

theorem modify_onlyMoves (s : Sys X) (p : TaskId) (f : TaskStruct → TaskStruct) :
    OnlyMoves p s (s.modify p f) :=
  OnlyMoves.of_queue (fun _ hq => s.modify_task_of_ne f hq) rfl

/-! ### The real-time lists -/

theorem enlistRtEntity_onlyMoves (s : Sys X) (p : TaskId) (flags : QueueFlags) :
    OnlyMoves p s (enlistRtEntity s p flags) := by
  refine ⟨(enlistRtEntity_onlyRt s p flags).frame, fun j => ?_⟩
  unfold enlistRtEntity
  split
  · rfl
  · rename_i i _
    show ((if flags.head then Levels.addHead s.rtQueue i p
      else Levels.addTail s.rtQueue i p) j).filter (· ≠ p) = _
    split
    · exact Levels.filter_addHead s.rtQueue i p j
    · exact Levels.filter_addTail s.rtQueue i p j

theorem delistRtEntity_onlyMoves (s : Sys X) (p : TaskId) : OnlyMoves p s (delistRtEntity s p) :=
  ⟨(delistRtEntity_onlyRt s p).frame, Levels.filter_del s.rtQueue p⟩

theorem requeueTaskRt_onlyMoves (s : Sys X) (p : TaskId) : OnlyMoves p s (requeueTaskRt s p) := by
  refine ⟨(requeueTaskRt_onlyRt s p).frame, fun j => ?_⟩
  unfold requeueTaskRt
  split
  · split
    · rfl
    · exact Levels.filter_moveTail s.rtQueue _ p j
  · rfl

theorem dequeueRtStack_onlyMoves (s : Sys X) (p : TaskId) (flags : QueueFlags) :
    OnlyMoves p s (dequeueRtStack s p flags) := by
  have htop : OnlyMoves p s (dequeueTopRtRq s) :=
    OnlyMoves.of_queue (dequeueTopRtRq_onlyRt s p).frame (dequeueTopRtRq_kept s).2
  unfold dequeueRtStack dequeueRtEntityOnce
  dsimp only
  split
  · refine htop.trans (OnlyMoves.trans ?_ (OnlyMoves.of_queue (decRtTasks_onlyRt _ p).frame
      (decRtTasks_kept _ p).2))
    refine OnlyMoves.trans ?_ (modify_onlyMoves _ p _)
    split
    · exact delistRtEntity_onlyMoves _ p
    · exact OnlyMoves.refl p _
  · exact htop

theorem enqueueTopRtRq_onlyMoves (s : Sys X) (p : TaskId) : OnlyMoves p s (enqueueTopRtRq s) :=
  OnlyMoves.of_queue (enqueueTopRtRq_onlyRt s p).frame (enqueueTopRtRq_kept s).2

theorem enqueueTaskRt_onlyMoves (s : Sys X) (p : TaskId) (flags : QueueFlags) :
    OnlyMoves p s (enqueueTaskRt s p flags) := by
  unfold enqueueTaskRt enqueueRtEntity enqueueRtEntityOnce
  dsimp only
  refine OnlyMoves.trans ?_ (enqueueTopRtRq_onlyMoves _ p)
  refine OnlyMoves.trans ?_ (OnlyMoves.of_queue (incRtTasks_onlyRt _ p).frame (incRtTasks_kept _ p).2)
  refine OnlyMoves.trans ?_ (modify_onlyMoves _ p _)
  have hstack : OnlyMoves p s (dequeueRtStack (if flags.wakeup then
      s.modify p fun t => { t with rt := { t.rt with timeout := 0 } } else s) p flags) := by
    refine OnlyMoves.trans ?_ (dequeueRtStack_onlyMoves _ p flags)
    split
    · exact modify_onlyMoves s p _
    · exact OnlyMoves.refl p s
  split
  · exact hstack.trans (enlistRtEntity_onlyMoves _ p flags)
  · exact hstack

theorem dequeueTaskRt_onlyMoves (other : OtherClasses X) (s : Sys X) (p : TaskId)
    (flags : QueueFlags) : OnlyMoves p s (dequeueTaskRt other s p flags) :=
  (((updateCurrRt_timed other s).onlyMoves p).trans (dequeueRtStack_onlyMoves _ p flags)).trans
    (enqueueTopRtRq_onlyMoves _ p)

theorem taskTickRt_onlyMoves (other : OtherClasses X) (s : Sys X) (p : TaskId) :
    OnlyMoves p s (taskTickRt other s p) := by
  unfold taskTickRt
  refine ((updateCurrRt_timed other s).onlyMoves p).trans ?_
  generalize updateCurrRt other s = s
  have hslice : ∀ (u : Sys X) (n : Nat), OnlyMoves p s u → OnlyMoves p s (u.modify p fun t =>
      { t with rt := { t.rt with timeSlice := n } }) :=
    fun u _ hu => hu.trans (modify_onlyMoves u p _)
  simp only
  split
  · exact OnlyMoves.refl p s
  · have h1 := hslice s (((s.task p).rt.timeSlice + (2 ^ 32 - 1)) % 2 ^ 32) (OnlyMoves.refl p s)
    have h2 := hslice _ other.rrTimeslice h1
    split
    · exact h1
    · split
      · exact (h2.trans (requeueTaskRt_onlyMoves _ p)).trans ((reschedCurr_quiet _).onlyMoves p)
      · exact h2

/-! ### Dispatch -/

theorem enqueueTask_onlyMoves (s : Sys X) (p : TaskId) (flags : QueueFlags) :
    OnlyMoves p s (enqueueTask other s p flags) := by
  unfold enqueueTask
  split
  · exact OnlyMoves.of_queue (enqueueTaskTs_owns s p flags).frame
      (congrArg RtRq.queue (enqueueTaskTs_rtRq s p flags))
  · exact enqueueTaskRt_onlyMoves s p flags
  · exact (callOther_quiet other s _ _).onlyMoves p

theorem dequeueTask_onlyMoves (s : Sys X) (p : TaskId) (flags : QueueFlags) :
    OnlyMoves p s (dequeueTask other s p flags) := by
  unfold dequeueTask
  split
  · exact OnlyMoves.of_queue (tsListDel_owns s p).frame rfl
  · exact dequeueTaskRt_onlyMoves other s p flags
  · exact (callOther_quiet other s _ _).onlyMoves p

theorem takeOff_onlyMoves (s : Sys X) (p : TaskId) (flags : QueueFlags) :
    OnlyMoves p s (takeOff other s p flags) := by
  have hdeq : OnlyMoves p s (if (s.task p).onRq then dequeueTask other s p flags else s) := by
    split
    · exact dequeueTask_onlyMoves s p flags
    · exact OnlyMoves.refl p s
  unfold takeOff
  simp only
  split
  · exact hdeq.trans ((putPrevTask_quiet other _ p).onlyMoves p)
  · exact hdeq

theorem enqueueIf_onlyMoves (s : Sys X) (p : TaskId) (queued : Bool) (flags : QueueFlags) :
    OnlyMoves p s (enqueueIf other s p queued flags) := by
  unfold enqueueIf
  split
  · exact enqueueTask_onlyMoves s p flags
  · exact OnlyMoves.refl p s

/-- Taking a task off and putting it back, whatever happens to it in between. -/
theorem putBack_onlyMoves {f : TaskStruct → TaskStruct} {flags : QueueFlags}
    (hu : Quiet ((takeOff other s p flags).modify p f) u) (queued : Bool) (flags' : QueueFlags) :
    OnlyMoves p s (enqueueIf other u p queued flags') := by
  refine OnlyMoves.trans ?_ (enqueueIf_onlyMoves u p queued flags')
  exact ((takeOff_onlyMoves s p flags).trans (modify_onlyMoves _ p f)).trans (hu.onlyMoves p)

/-! ### The operations -/

theorem tryToWakeUp_onlyMoves (s : Sys X) (p : TaskId) (wakeFlags : Nat) :
    OnlyMoves p s (tryToWakeUp other s p wakeFlags) := by
  have hwake : ∀ u : Sys X, OnlyMoves p u (ttwuDoWakeup other u p wakeFlags) := fun u =>
    ((checkPreemptCurr_quiet other u p wakeFlags).onlyMoves p).trans (modify_onlyMoves _ p _)
  unfold tryToWakeUp
  split
  · exact OnlyMoves.refl p s
  · split
    · exact hwake s
    · refine OnlyMoves.trans ?_ (hwake _)
      exact (enqueueTask_onlyMoves s p _).trans (modify_onlyMoves _ p _)

theorem schedFork_onlyMoves (s : Sys X) (child : TaskId) :
    OnlyMoves child s (schedFork other s child).2 := by
  have hnew := fun t => modify_onlyMoves s child fun _ => t
  unfold schedFork
  simp only
  split
  · exact OnlyMoves.refl child s
  · split
    · exact hnew _
    · exact hnew _
    · exact (hnew _).trans ((callOther_quiet other _ _ _).onlyMoves child)

variable (other) in
theorem schedule_onlyMoves (h : Inv s) (preempt signalPending : Bool) :
    OnlyMoves s.curr s (schedule other s preempt signalPending) := by
  have hprev : OnlyMoves s.curr s (deactivatePrev other s preempt signalPending) := by
    unfold deactivatePrev
    split
    · split
      · exact modify_onlyMoves s s.curr _
      · exact (dequeueTask_onlyMoves s s.curr _).trans (modify_onlyMoves _ s.curr _)
    · exact OnlyMoves.refl s.curr s
  obtain ⟨next, v, hquiet, -, heq⟩ := schedule_eq other h preempt signalPending
  rw [heq]
  refine (hprev.trans (hquiet.onlyMoves s.curr)).trans ?_
  exact OnlyMoves.of_queue (fun _ _ => rfl) rfl

theorem taskTick_onlyMoves (s : Sys X) (p : TaskId) : OnlyMoves p s (taskTick other s p) := by
  unfold taskTick
  split
  · exact OnlyMoves.of_queue (taskTickTs_owns s p).frame
      (congrArg RtRq.queue (taskTickTs_rtRq s p))
  · exact taskTickRt_onlyMoves other s p
  · exact (callOther_quiet other s _ _).onlyMoves p

variable (other) in
theorem yieldTask_onlyMoves (s : Sys X) : OnlyMoves s.curr s (yieldTask other s) := by
  unfold yieldTask
  split
  · exact OnlyMoves.of_queue (tsListMoveTail_owns s s.curr _).frame
      (congrArg RtRq.queue (tsListAddTail_rtRq (tsListDel s s.curr) s.curr _))
  · exact requeueTaskRt_onlyMoves s s.curr
  · exact (callOther_quiet other s _ _).onlyMoves s.curr

theorem setUserNice_onlyMoves (s : Sys X) (p : TaskId) (nice : Int) :
    OnlyMoves p s (setUserNice other s p nice) := by
  rcases setUserNice_cases other s p nice with ⟨-, heq⟩ | ⟨-, ⟨-, heq⟩ | ⟨-, -, u, hu, hback⟩⟩
  · rw [heq]
    exact OnlyMoves.refl p s
  · rw [heq]
    exact modify_onlyMoves s p _
  · exact (putBack_onlyMoves hu _ _).trans (hback.onlyMoves p)

theorem doSetCpusAllowed_onlyMoves (s : Sys X) (p : TaskId) :
    OnlyMoves p s (doSetCpusAllowed other s p) := by
  unfold doSetCpusAllowed
  simp only
  refine OnlyMoves.trans ?_ ((setCurrIf_quiet other _ p _).onlyMoves p)
  exact (takeOff_onlyMoves s p _).trans (enqueueIf_onlyMoves _ p _ _)

theorem setschedulerChange_onlyMoves (s : Sys X) (p : TaskId) (attr : SchedAttr) (policy : Policy)
    (resetFork pi : Bool) :
    OnlyMoves p s (setschedulerChange other s p attr policy resetFork pi) := by
  refine (modify_onlyMoves s p fun t => { t with schedResetOnFork := resetFork }).trans ?_
  unfold setschedulerChange
  simp only
  refine OnlyMoves.trans ?_ ((checkClassChanged_quiet other _ p _ _).onlyMoves p)
  refine OnlyMoves.trans ?_ ((setCurrIf_quiet other _ p _).onlyMoves p)
  exact putBack_onlyMoves (setscheduler_quiet other attr policy pi) _ _

theorem schedSetscheduler_onlyMoves (env : SetschedulerEnv) (s : Sys X) (p : TaskId)
    (attr : SchedAttr) (user pi : Bool) :
    OnlyMoves p s (schedSetscheduler other env s p attr user pi).2 := by
  unfold schedSetscheduler
  simp only
  split
  · exact OnlyMoves.refl p s
  · split
    · exact OnlyMoves.refl p s
    · exact modify_onlyMoves s p fun t => { t with schedResetOnFork := _ }
    · exact setschedulerChange_onlyMoves s p attr _ _ pi

theorem rtMutexSetprio_onlyMoves (s : Sys X) (p : TaskId) (piTask : Option TaskId) :
    OnlyMoves p s (rtMutexSetprio other s p piTask) := by
  have hdonor : OnlyMoves p s (withDonor s p piTask) := modify_onlyMoves s p _
  rcases rtMutexSetprio_cases other s p piTask rfl with ⟨-, heq | heq⟩ |
    ⟨-, -, flags, flags', -, -, -, hquiet⟩
  · rw [heq]
    exact OnlyMoves.refl p s
  · rw [heq]
    exact hdonor
  · exact (hdonor.trans (putBack_onlyMoves (Quiet.refl _) _ _)).trans (hquiet.onlyMoves p)

/-- **An operation touches nobody but its subject.** -/
theorem step_onlyMoves {op : Op} (h : Inv s) (hstep : step other s op = some s') :
    OnlyMoves (op.subject s) s s' := by
  obtain ⟨hen, rfl⟩ := step_eq_some hstep
  cases op with
  | schedFork child => exact schedFork_onlyMoves s child
  | wakeUpNewTask p =>
      have hrun := modify_onlyMoves s p fun t => { t with state := .running }
      refine OnlyMoves.trans ?_ ((checkPreemptCurr_quiet other _ p 2).onlyMoves p)
      exact (hrun.trans (enqueueTask_onlyMoves _ p { noclock := true })).trans
        (modify_onlyMoves _ p fun t => { t with onRq := true })
  | tryToWakeUp p wakeFlags => exact tryToWakeUp_onlyMoves s p wakeFlags
  | setCurrentState st => exact modify_onlyMoves s s.curr fun t => { t with state := st }
  | schedule preempt signalPending => exact schedule_onlyMoves other h preempt signalPending
  | doSchedYield signalPending =>
      have hsched := schedule_onlyMoves other (yieldTask_inv other h) false signalPending
      rw [(yieldTask_owns other s).curr] at hsched
      exact (yieldTask_onlyMoves other s).trans hsched
  | doTaskDead =>
      have hdead := h.setState (p := s.curr) (show TaskState.dead ≠ .new by simp)
        fun heq => absurd heq hen
      exact (modify_onlyMoves s s.curr _).trans (schedule_onlyMoves other hdead false false)
  | schedulerTick => exact taskTick_onlyMoves s s.curr
  | taskSchedRuntime p => exact (taskSchedRuntime_quiet other s p).onlyMoves p
  | doSchedRtPeriodTimer => exact (doSchedRtPeriodTimer_timed other s).onlyMoves s.curr
  | setUserNice p nice => exact setUserNice_onlyMoves s p nice
  | doSetCpusAllowed p => exact doSetCpusAllowed_onlyMoves s p
  | schedSetscheduler p attr env user pi => exact schedSetscheduler_onlyMoves env s p attr user pi
  | rtMutexSetprio p piTask => exact rtMutexSetprio_onlyMoves s p piTask

/-- Whoever is the subject of no operation of a run comes out of it as he went in. -/
theorem run_frame {q : TaskId} {ops : List Op} (h : Inv s)
    (hothers : Runs.EachStep (step other) (fun s op => op.subject s ≠ q) s ops)
    (hrun : Runs.run (step other) s ops = some t) : t.task q = s.task q := by
  refine (Runs.run_invariant_of_eachStep (I := fun v => Inv v ∧ v.task q = s.task q) ?_ ops s t
    ⟨h, rfl⟩ hothers hrun).2
  intro v op v' hv hne hstep
  exact ⟨step_inv hv.1 hstep, ((step_onlyMoves hv.1 hstep).frame q hne.symm).trans hv.2⟩

/--
**Nobody is disturbed.**  From any state a run reaches, as long as nothing is done to `a`
and to `b`, both stay exactly as they are, on the lists they are on and in the order they
are in.
-/
theorem rt_undisturbed (hboot : Boot s) {ops : List Op}
    (hrun : Runs.run (step other) s ops = some t) {a b : TaskId} {more : List Op}
    (hothers : Runs.EachStep (step other) (fun s op => op.subject s ≠ a ∧ op.subject s ≠ b) t more)
    (hmore : Runs.run (step other) t more = some u) :
    u.task a = t.task a ∧ u.task b = t.task b ∧
      ∀ i, (a ∈ u.rtQueue i ↔ a ∈ t.rtQueue i) ∧
        (Levels.Before (u.rtQueue i) a b ↔ Levels.Before (t.rtQueue i) a b) := by
  refine (Runs.run_invariant_of_eachStep (I := fun v => Inv v ∧
    (v.task a = t.task a ∧ v.task b = t.task b ∧
      ∀ i, (a ∈ v.rtQueue i ↔ a ∈ t.rtQueue i) ∧
        (Levels.Before (v.rtQueue i) a b ↔ Levels.Before (t.rtQueue i) a b))) ?_ more t u
    ⟨run_inv hboot hrun, rfl, rfl, fun _ => ⟨Iff.rfl, Iff.rfl⟩⟩ hothers hmore).2
  intro v op v' hv hne hstep
  obtain ⟨hinv, ha, hb, hlists⟩ := hv
  have hmoves := step_onlyMoves hinv hstep
  refine ⟨step_inv hinv hstep, ?_, ?_, fun i => ⟨?_, ?_⟩⟩
  · rw [hmoves.frame a hne.1.symm, ha]
  · rw [hmoves.frame b hne.2.symm, hb]
  · refine Iff.trans ?_ (hlists i).1
    have hmem : ∀ l : List TaskId, a ∈ l ↔ a ∈ l.filter (· ≠ op.subject v) := by
      intro l
      simp [hne.1.symm]
    rw [hmem (v'.rtQueue i), hmem (v.rtQueue i), hmoves.order i]
  · exact (Levels.before_iff_of_filter (hmoves.order i) hne.1.symm hne.2.symm).trans (hlists i).2

/-- A third task is forked, made a real-time task of the same priority, and yields nothing to
the two that were there. -/
def thirdRtTask : List Op := [.schedFork 3, .wakeUpNewTask 3, .setPolicy 3 1 50]

theorem rt_undisturbed_thirdRtTask :
    ∃ t u, Runs.run (step queueFair) bootSys twoRtTasks = some t ∧
      Runs.run (step queueFair) t thirdRtTask = some u ∧ u.task 1 = t.task 1 ∧
      u.task 2 = t.task 2 ∧ ∀ i, (1 ∈ u.rtQueue i ↔ 1 ∈ t.rtQueue i) ∧
        (Levels.Before (u.rtQueue i) 1 2 ↔ Levels.Before (t.rtQueue i) 1 2) := by
  have hsome : (Runs.run (step queueFair) bootSys (twoRtTasks ++ thirdRtTask)).isSome = true := by
    decide +kernel
  obtain ⟨u, hall⟩ := Option.isSome_iff_exists.mp hsome
  obtain ⟨t, hrun, hmore⟩ := Runs.run_append hall
  refine ⟨t, u, hrun, hmore, rt_undisturbed bootSys_boot hrun ?_ hmore⟩
  have hthird : ∀ v : Sys (List TaskId), ∀ op ∈ thirdRtTask, op.subject v = 3 := by
    intro v op hop
    simp only [thirdRtTask, List.mem_cons, List.not_mem_nil, or_false] at hop
    rcases hop with rfl | rfl | rfl <;> rfl
  refine Runs.eachStep_of_all fun v op hop => ?_
  rw [hthird v op hop]
  decide

end Sched
