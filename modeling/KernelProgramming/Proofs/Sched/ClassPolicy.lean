/-
Does the policy decide the class?

Three places choose a class.  `sched_fork` and `__setscheduler` give a `SCHED_TS`
task without a real-time priority the time-sharing class.  `rt_mutex_setprio` does
not know the class: with a priority that is neither deadline nor real-time it
chooses the fair class whatever the policy is.

It gets that far with a `SCHED_TS` task whenever the priority it computes is not
the one the task has, be it because a boost ends or because the task has sunk or
risen since; then the task is of the fair class with a `SCHED_TS` policy.  Nothing
else breaks the rule (`classByPolicy_iff`).
-/
import KernelProgramming.Proofs.Sched.Reachable

namespace Sched

variable {X : Type} {other : OtherClasses X} {s s' t : Sys X} {p : TaskId}

/-- The class is decided by policy and priority. -/
structure ClassByPolicy (s : Sys X) : Prop where
  tsClass : ∀ q, q ≠ s.idle → s.stop ≠ some q → (s.task q).policy = .ts →
    100 ≤ (s.task q).prio → (s.task q).prio ≤ 139 → (s.task q).schedClass = .ts
  tsPolicy : ∀ q, (s.task q).schedClass = .ts → (s.task q).policy = .ts

/-- A `SCHED_TS` task with a priority of the time-sharing range is of the class. -/
def ClassFits (t : TaskStruct) : Prop :=
  t.policy = .ts → 100 ≤ t.prio → t.schedClass = .ts

/-- All tasks but the idle and the stop task fit. -/
def AllFit (s : Sys X) : Prop :=
  ∀ q, q ≠ s.idle → s.stop ≠ some q → ClassFits (s.task q)

theorem classByPolicy_iff_allFit (h : Inv s) : ClassByPolicy s ↔ AllFit s := by
  constructor
  · intro hc q hidle hstop hpol hprio
    exact hc.tsClass q hidle hstop hpol hprio (h.linked.tasks q).prio.2.1
  · intro hfit
    refine ⟨?_, fun q => (h.linked.tasks q).tsPolicy⟩
    intro q hidle hstop hpol hprio _
    exact hfit q hidle hstop hpol hprio

/-! ### Hooks

A hook of the time-sharing class may change the priority of its task, but only a
task of the class gets there.
-/

/-- `Owns`, and the priority changes only if the task is of the time-sharing class. -/
structure Mild (p : TaskId) (s s' : Sys X) : Prop extends Owns p s s' where
  prio : (s.task p).schedClass ≠ .ts → (s'.task p).prio = (s.task p).prio

theorem Mild.trans {s'' : Sys X} (h : Mild p s s') (h' : Mild p s' s'') : Mild p s s'' := by
  refine ⟨h.toOwns.trans h'.toOwns, ?_⟩
  intro hne
  rw [h'.prio (by rw [h.self.schedClass]; exact hne), h.prio hne]

theorem Quiet.mild (h : Quiet s s') (p : TaskId) : Mild p s s' :=
  ⟨h.owns p, fun _ => by rw [h.task]⟩

variable (other) in
theorem enqueueTask_mild (s : Sys X) (p : TaskId) (flags : QueueFlags) :
    Mild p s (enqueueTask other s p flags) := by
  refine ⟨enqueueTask_owns other s p flags, ?_⟩
  intro hne
  unfold enqueueTask
  split
  · rename_i hts
    exact absurd hts hne
  · exact (enqueueTaskRt_onlyRt s p flags).prio p
  · rfl

variable (other) in
theorem taskTick_mild (s : Sys X) (p : TaskId) : Mild p s (taskTick other s p) := by
  refine ⟨taskTick_owns other s p, ?_⟩
  intro hne
  unfold taskTick
  split
  · rename_i hts
    exact absurd hts hne
  · exact taskTickRt_prio other s p p
  · rfl

variable (other) in
theorem yieldTask_mild (s : Sys X) : Mild s.curr s (yieldTask other s) := by
  refine ⟨yieldTask_owns other s, ?_⟩
  intro hne
  unfold yieldTask
  split
  · rename_i hts
    exact absurd hts hne
  · exact (requeueTaskRt_onlyRt s s.curr).prio s.curr
  · rfl

variable (other) in
theorem dequeueTask_mild (s : Sys X) (p : TaskId) (flags : QueueFlags) :
    Mild p s (dequeueTask other s p flags) :=
  ⟨dequeueTask_owns other s p flags, fun _ => (dequeueTask_prio other s p flags p).1⟩

variable (other) in
theorem takeOff_mild (s : Sys X) (p : TaskId) (flags : QueueFlags) :
    Mild p s (takeOff other s p flags) :=
  ⟨takeOff_owns other s p flags, fun _ => (takeOff_prio other s p flags p).1⟩

variable (other) in
theorem enqueueIf_mild (s : Sys X) (p : TaskId) (queued : Bool) (flags : QueueFlags) :
    Mild p s (enqueueIf other s p queued flags) := by
  unfold enqueueIf
  split
  · exact enqueueTask_mild other s p flags
  · exact (Quiet.refl s).mild p

/-- A hook leaves a task that fits fitting, and one that does not fit not fitting. -/
theorem Mild.fits (h : Mild p s s') (hfit : ClassFits (s.task p)) : ClassFits (s'.task p) := by
  intro hpol hprio
  rw [h.self.schedClass]
  by_contra hne
  rw [h.prio hne] at hprio
  rw [h.self.policy] at hpol
  exact hne (hfit hpol hprio)

theorem AllFit.of_mild (hfit : AllFit s) (h : Mild p s s') : AllFit s' := by
  intro q hidle hstop
  rw [h.idle] at hidle
  rw [h.stop] at hstop
  by_cases hq : q = p
  · subst hq
    exact h.fits (hfit q hidle hstop)
  · rw [h.frame q hq]
    exact hfit q hidle hstop

theorem AllFit.of_quiet (hfit : AllFit s) (h : Quiet s s') : AllFit s' :=
  hfit.of_mild (h.mild s.curr)

theorem AllFit.modify (hfit : AllFit s) {f : TaskStruct → TaskStruct}
    (hf : ClassFits (s.task p) → ClassFits (f (s.task p))) : AllFit (s.modify p f) := by
  intro q hidle hstop
  by_cases hq : q = p
  · subst hq
    rw [s.modify_task_self]
    exact hf (hfit q hidle hstop)
  · rw [s.modify_task_of_ne f hq]
    exact hfit q hidle hstop

/-! ### Operations -/

theorem classOf_fits {t : TaskStruct} (h : t.schedClass = classOf t.prio t.policy) :
    ClassFits t := by
  intro hpol hprio
  rw [h, hpol]
  unfold classOf
  rw [if_neg (by simpa using hprio)]
  rfl

theorem schedFork_allFit (hfit : AllFit s) (child : TaskId) :
    AllFit (schedFork other s child).2 := by
  have hnew : ∀ t : TaskStruct,
      AllFit (s.modify child fun _ => { t with schedClass := classOf t.prio t.policy }) := by
    intro t
    exact hfit.modify fun _ => classOf_fits rfl
  unfold schedFork
  simp only
  split
  · exact hfit
  · split
    · exact hnew _
    · exact hnew _
    · exact (hnew _).of_quiet (callOther_quiet other _ _ _)

theorem wakeUpNewTask_allFit (hfit : AllFit s) (p : TaskId) :
    AllFit (wakeUpNewTask other s p) := by
  have h1 : AllFit (s.modify p fun t => { t with state := .running }) := hfit.modify fun h => h
  have h2 := h1.of_mild (enqueueTask_mild other _ p { noclock := true })
  have h3 : AllFit ((enqueueTask other (s.modify p fun t => { t with state := .running }) p
      { noclock := true }).modify p fun t => { t with onRq := true }) := h2.modify fun h => h
  exact h3.of_quiet (checkPreemptCurr_quiet other _ p 2)

theorem ttwuDoWakeup_allFit (hfit : AllFit s) (p : TaskId) (wakeFlags : Nat) :
    AllFit (ttwuDoWakeup other s p wakeFlags) :=
  (hfit.of_quiet (checkPreemptCurr_quiet other s p wakeFlags)).modify fun h => h

theorem tryToWakeUp_allFit (hfit : AllFit s) (p : TaskId) (wakeFlags : Nat) :
    AllFit (tryToWakeUp other s p wakeFlags) := by
  unfold tryToWakeUp
  split
  · exact hfit
  · split
    · exact ttwuDoWakeup_allFit hfit p wakeFlags
    · refine ttwuDoWakeup_allFit ?_ p wakeFlags
      exact (hfit.of_mild (enqueueTask_mild other s p _)).modify fun h => h

theorem schedule_allFit (h : Inv s) (hfit : AllFit s) (preempt signalPending : Bool) :
    AllFit (schedule other s preempt signalPending) := by
  have hprev : AllFit (deactivatePrev other s preempt signalPending) := by
    unfold deactivatePrev
    split
    · split
      · exact hfit.modify fun h => h
      · exact (hfit.of_mild (dequeueTask_mild other s s.curr _)).modify fun h => h
    · exact hfit
  obtain ⟨next, v, hquiet, -, heq⟩ := schedule_eq other h preempt signalPending
  have hv : AllFit v := hprev.of_quiet hquiet
  rw [heq]
  exact hv

/-- Take a task off its queue, rewrite it, put it back. -/
theorem putBack_allFit (hfit : AllFit s) {f : TaskStruct → TaskStruct} {flags : QueueFlags}
    {u : Sys X} (hu : Quiet ((takeOff other s p flags).modify p f) u)
    (hf : ClassFits ((takeOff other s p flags).task p) →
      ClassFits (f ((takeOff other s p flags).task p)))
    (queued : Bool) (flags' : QueueFlags) : AllFit (enqueueIf other u p queued flags') :=
  (((hfit.of_mild (takeOff_mild other s p flags)).modify hf).of_quiet hu).of_mild
    (enqueueIf_mild other u p queued flags')

/-- The new priority is out of the real-time range only if the old one was. -/
theorem ClassFits.renice {t : TaskStruct} (ht : ClassFits t) (nice : Int) :
    ClassFits (effectivePrio { t with staticPrio := niceToPrio nice }) := by
  intro hpol hprio
  refine ht hpol ?_
  by_contra hlt
  have hrt : rtPrio t.prio = true := by
    rw [rtPrio_eq_true]
    omega
  simp only [effectivePrio, hrt, Bool.not_true, Bool.false_eq_true, if_false] at hprio
  omega

theorem setUserNice_allFit (hfit : AllFit s) (p : TaskId) (nice : Int) :
    AllFit (setUserNice other s p nice) := by
  rcases setUserNice_cases other s p nice with ⟨-, heq⟩ | ⟨-, ⟨-, heq⟩ | ⟨-, -, u, hu, hback⟩⟩
  · rw [heq]
    exact hfit
  · rw [heq]
    exact hfit.modify fun h => h
  · have hput := putBack_allFit hfit hu (fun h => h.renice nice) (s.task p).onRq
      { restore := true, noclock := true }
    exact hput.of_quiet hback

theorem rescheduled_fits (attr : SchedAttr) (policy : Policy) (prio : Int) (t : TaskStruct) :
    ClassFits (rescheduled attr policy prio t) := by
  intro hpol hprio
  have hdl : dlPrio prio = false := by
    have : 100 ≤ prio := hprio
    rw [dlPrio_eq_false]
    omega
  exact classOf_fits (t := rescheduled attr policy prio t)
    (by unfold rescheduled; simp only [hdl, Bool.false_eq_true, if_false]) hpol hprio

theorem setschedulerChange_allFit (hfit : AllFit s) (p : TaskId) (attr : SchedAttr)
    (policy : Policy) (resetFork pi : Bool) :
    AllFit (setschedulerChange other s p attr policy resetFork pi) := by
  have h1 : AllFit (s.modify p fun t => { t with schedResetOnFork := resetFork }) :=
    hfit.modify fun h => h
  unfold setschedulerChange
  simp only
  generalize s.modify p (fun t => { t with schedResetOnFork := resetFork }) = s₁ at h1
  refine AllFit.of_quiet ?_ (checkClassChanged_quiet other _ p _ _)
  refine AllFit.of_quiet ?_ (setCurrIf_quiet other _ p _)
  exact putBack_allFit h1 (setscheduler_quiet other attr policy pi)
    (fun _ => rescheduled_fits _ _ _ _) _ _

theorem schedSetscheduler_allFit (hfit : AllFit s) (p : TaskId) (env : SetschedulerEnv)
    (attr : SchedAttr) (user pi : Bool) :
    AllFit (schedSetscheduler other env s p attr user pi).2 := by
  have hflag : ∀ resetFork,
      AllFit (s.modify p fun t => { t with schedResetOnFork := resetFork }) :=
    fun _ => hfit.modify fun h => h
  unfold schedSetscheduler
  simp only
  split
  · exact hfit
  · split
    · exact hfit
    · exact hflag _
    · exact setschedulerChange_allFit hfit p attr _ _ pi

/-! ### Priority inheritance -/

/-- `rt_mutex_setprio` does not get to its last branch with a `SCHED_TS` task: the priority
it computes is a real-time or deadline priority, or the one the task has. -/
def KeepsClass (s : Sys X) : Op → Prop
  | .rtMutexSetprio p piTask =>
      p ≠ s.idle → s.stop ≠ some p → (s.task p).policy = .ts →
        rtEffectivePrioOf s piTask (s.task p).normalPrio < 100 ∨
        rtEffectivePrioOf s piTask (s.task p).normalPrio = (s.task p).prio
  | _ => True

/-- The class that the boost or its end writes is that of the new priority, and it is written
to nobody else. -/
theorem putBack_boosted {prio oldprio : Int} (piTask : Option TaskId) {flags flags' : QueueFlags}
    {queued : Bool}
    (hquiet : Quiet (enqueueIf other
      ((takeOff other (withDonor s p piTask) p flags).modify p (boosted prio oldprio)) p queued
      flags') s') :
    Keeps p s s' ∧ (s'.task p).policy = (s.task p).policy ∧ (s'.task p).prio = prio ∧
      (s'.task p).schedClass = piClassOf prio := by
  have hdonor : Keeps p s (withDonor s p piTask) := modify_keeps s p rfl rfl
  have hpol : ((withDonor s p piTask).task p).policy = (s.task p).policy := by
    unfold withDonor
    rw [s.modify_task_self]
  have htake := takeOff_owns other (withDonor s p piTask) p flags
  generalize takeOff other (withDonor s p piTask) p flags = u at htake hquiet
  have hwrite : Keeps p u (u.modify p (boosted prio oldprio)) := modify_keeps u p rfl rfl
  have hself : (u.modify p (boosted prio oldprio)).task p = boosted prio oldprio (u.task p) :=
    u.modify_task_self ..
  -- What comes after the write is a hook of a class that is not the time-sharing class.
  have hlast := (enqueueIf_mild other (u.modify p (boosted prio oldprio)) p queued flags').trans
    (hquiet.mild p)
  refine ⟨?_, ?_, ?_, ?_⟩
  · exact ((hdonor.trans htake.keeps).trans hwrite).trans hlast.keeps
  · refine hlast.self.policy.trans ?_
    rw [hself]
    exact htake.self.policy.trans hpol
  · refine (hlast.prio ?_).trans ?_
    · rw [hself]
      exact piClassOf_ne_ts prio
    · rw [hself]
      rfl
  · refine hlast.self.schedClass.trans ?_
    rw [hself]
    rfl

theorem rtMutexSetprio_allFit (hfit : AllFit s) (p : TaskId) (piTask : Option TaskId) :
    AllFit (rtMutexSetprio other s p piTask) ↔ KeepsClass s (.rtMutexSetprio p piTask) := by
  show _ ↔ (p ≠ s.idle → s.stop ≠ some p → (s.task p).policy = .ts →
    rtEffectivePrioOf s piTask (s.task p).normalPrio < 100 ∨
    rtEffectivePrioOf s piTask (s.task p).normalPrio = (s.task p).prio)
  rcases rtMutexSetprio_cases other s p piTask rfl with ⟨hbail, hdone⟩ |
    ⟨hgo, hidle, flags, flags', -, -, -, hquiet⟩
  · have hright : AllFit (rtMutexSetprio other s p piTask) := by
      rcases hdone with heq | heq
      · rw [heq]
        exact hfit
      · rw [heq]
        exact hfit.modify fun h => h
    refine iff_of_true hright fun hidle _ _ => Or.inr ?_
    rcases hbail with hb | hb
    · exact hb.1
    · exact absurd hb hidle
  · obtain ⟨hkeeps, hpol, hprio, hcls⟩ := putBack_boosted piTask hquiet
    constructor
    · intro hall _ hstop hts
      left
      by_contra hge
      have hclass := hall p (by rw [hkeeps.idle]; exact hidle) (by rw [hkeeps.stop]; exact hstop)
        (hpol.trans hts) (by rw [hprio]; omega)
      rw [hcls] at hclass
      exact piClassOf_ne_ts _ hclass
    · intro himp q hq hs
      rw [hkeeps.idle] at hq
      rw [hkeeps.stop] at hs
      by_cases hqp : q = p
      · subst hqp
        intro hts h100
        rw [hpol] at hts
        rw [hprio] at h100
        -- The priority would be the one the task has, and then nothing would have been done.
        rcases himp hq hs hts with hlt | hsame
        · omega
        · refine absurd ⟨hsame, ?_⟩ hgo
          rw [dlPrio_eq_false]
          omega
      · rw [hkeeps.frame q hqp]
        exact hfit q hq hs

/-! ### Whole runs -/

theorem step_allFit {op : Op} (h : Inv s) (hfit : AllFit s) (hstep : step other s op = some s') :
    AllFit s' ↔ KeepsClass s op := by
  obtain ⟨hen, rfl⟩ := step_eq_some hstep
  cases op with
  | rtMutexSetprio p piTask => exact rtMutexSetprio_allFit hfit p piTask
  | schedFork child => exact iff_of_true (schedFork_allFit hfit child) trivial
  | wakeUpNewTask p => exact iff_of_true (wakeUpNewTask_allFit hfit p) trivial
  | tryToWakeUp p wakeFlags => exact iff_of_true (tryToWakeUp_allFit hfit p wakeFlags) trivial
  | setCurrentState st =>
      exact iff_of_true (hfit.modify (p := s.curr) (f := fun t => { t with state := st })
        fun h => h) trivial
  | schedule preempt signalPending =>
      exact iff_of_true (schedule_allFit h hfit preempt signalPending) trivial
  | doSchedYield signalPending =>
      exact iff_of_true (schedule_allFit (yieldTask_inv other h) (hfit.of_mild (yieldTask_mild other s))
        false signalPending) trivial
  | doTaskDead =>
      have hdead := h.setState (p := s.curr) (show TaskState.dead ≠ .new by simp)
        fun heq => absurd heq hen
      exact iff_of_true (schedule_allFit hdead (hfit.modify fun h => h) false false) trivial
  | schedulerTick => exact iff_of_true (hfit.of_mild (taskTick_mild other s s.curr)) trivial
  | taskSchedRuntime p =>
      exact iff_of_true (hfit.of_quiet (taskSchedRuntime_quiet other s p)) trivial
  | doSchedRtPeriodTimer =>
      exact iff_of_true (hfit.of_quiet (doSchedRtPeriodTimer_timed other s).toQuiet) trivial
  | setUserNice p nice => exact iff_of_true (setUserNice_allFit hfit p nice) trivial
  | doSetCpusAllowed p =>
      have hput := (hfit.of_mild (takeOff_mild other s p
        { restore := true, noclock := true })).of_mild (enqueueIf_mild other _ p
          (s.task p).onRq { restore := true, noclock := true })
      exact iff_of_true (hput.of_quiet (setCurrIf_quiet other _ p _)) trivial
  | schedSetscheduler p attr env user pi =>
      exact iff_of_true (schedSetscheduler_allFit hfit p env attr user pi) trivial

theorem Boot.allFit (h : Boot s) : AllFit s := by
  intro q hidle hstop hpol hprio
  have hdl : dlPrio (s.task q).prio = false := by
    rw [dlPrio_eq_false]
    omega
  refine classOf_fits ?_ hpol hprio
  rw [h.home q hidle hstop]
  unfold homeClass
  rw [if_neg (by simp [hdl])]

/--
**Policy and class.**  All along a run every `SCHED_TS` task with a time-sharing priority
is of the time-sharing class and every task of the class is `SCHED_TS`, exactly when no
`rt_mutex_setprio` gives a `SCHED_TS` task another time-sharing priority than it has.
-/
theorem classByPolicy_iff (hboot : Boot s) {ops : List Op}
    (hrun : Runs.run (step other) s ops = some t) :
    Runs.Always (step other) ClassByPolicy s ops ↔
      Runs.EachStep (step other) KeepsClass s ops := by
  refine Runs.always_iff_eachStep (fun _ _ _ h hstep => step_inv h hstep) ?_ ops s t hboot.inv
    ((classByPolicy_iff_allFit hboot.inv).mpr hboot.allFit) hrun
  intro s a s' h hc hstep
  rw [classByPolicy_iff_allFit (step_inv h hstep)]
  exact step_allFit h ((classByPolicy_iff_allFit h).mp hc) hstep

/-- A task is boosted by a real-time donor and then de-boosted. -/
def boostAndDeboost : List Op :=
  [.toTs 1, .setPolicy 2 1 50, .rtMutexSetprio 1 (some 2), .rtMutexSetprio 1 none]

/-- It ends up with its policy and its old priority in the fair class. -/
theorem classByPolicy_fails_after_deboost :
    Boot bootSys ∧ ∃ t, Runs.run (step queueFair) bootSys boostAndDeboost = some t ∧
      ¬ClassByPolicy t := by
  refine ⟨bootSys_boot, _, rfl, ?_⟩
  intro hc
  have hts := hc.tsClass 1 (by decide) (by decide) rfl (by decide +kernel) (by decide +kernel)
  exact absurd hts (by decide +kernel)

/-- While it is boosted nothing is wrong: a task with a real-time priority belongs to the
real-time class. -/
theorem classByPolicy_boosted :
    ∃ t, Runs.run (step queueFair) bootSys
        [.toTs 1, .setPolicy 2 1 50, .rtMutexSetprio 1 (some 2)] = some t ∧
      (t.task 1).prio = 49 ∧
      Runs.Always (step queueFair) ClassByPolicy bootSys
        [.toTs 1, .setPolicy 2 1 50, .rtMutexSetprio 1 (some 2)] := by
  have hrun : Runs.run (step queueFair) bootSys
    [.toTs 1, .setPolicy 2 1 50, .rtMutexSetprio 1 (some 2)] = some _ := rfl
  refine ⟨_, hrun, by decide +kernel, (classByPolicy_iff bootSys_boot hrun).mpr ?_⟩
  have hfirst : Runs.EachStep (step queueFair) KeepsClass bootSys [.toTs 1, .setPolicy 2 1 50] :=
    ⟨trivial, fun _ _ => ⟨trivial, fun _ _ => trivial⟩⟩
  refine Runs.eachStep_append hfirst rfl ⟨?_, fun _ _ => trivial⟩
  intro _ _ _
  exact Or.inl (by decide +kernel)

end Sched
