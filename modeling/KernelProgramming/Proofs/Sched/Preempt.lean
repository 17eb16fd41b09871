/-
Is the running task told when a time-sharing task becomes eligible?

There are four ways for a task of the class to become eligible, and each of them
leaves it to different code to ask for a reschedule: `check_preempt_curr` for a
wakeup and a new task, `set_user_nice` itself, and `switched_to_ts` for a change of
policy.  The last of these is empty, where `switched_to_rt` compares priorities, so
a queued task that becomes `SCHED_TS` goes unnoticed unless a reschedule was due
anyway.
-/
import KernelProgramming.Proofs.Sched.Reachable

namespace Sched

variable {X : Type} {other : OtherClasses X} {s s' : Sys X} {p : TaskId}

/-- The running task should make way for a time-sharing task of priority `prio`. -/
def MakesWay (curr : TaskStruct) (prio : Int) : Prop :=
  curr.schedClass = .fair ∨ curr.schedClass = .idle ∨ (curr.schedClass = .ts ∧ curr.prio > prio)

/-- If the running task should make way for `p`, it has been marked. -/
def Prompt (s : Sys X) (p : TaskId) : Prop :=
  MakesWay (s.task s.curr) (s.task p).prio → s.needResched = true

/-- The four ways for a task of the class to become eligible. -/
inductive TsEvent
  | ttwuDoActivate (wakeFlags : Nat)
  | wakeUpNewTask
  | setUserNice (nice : Int)
  | schedSetscheduler (attr : SchedAttr) (env : SetschedulerEnv) (user pi : Bool)

namespace TsEvent

/-- The call. -/
def exec (other : OtherClasses X) (s : Sys X) (p : TaskId) : TsEvent → Sys X
  | ttwuDoActivate wakeFlags => Sched.ttwuDoActivate other s p wakeFlags
  | wakeUpNewTask => Sched.wakeUpNewTask other s p
  | setUserNice nice => Sched.setUserNice other s p nice
  | schedSetscheduler attr env user pi => (Sched.schedSetscheduler other env s p attr user pi).2

/-- The call makes `p`, a task of the class, runnable or raises it: for `set_user_nice` a
queued task gets a smaller priority, for `__sched_setscheduler` a queued task of another
policy becomes `SCHED_TS`. -/
def Raises (other : OtherClasses X) (s : Sys X) (p : TaskId) : TsEvent → Prop
  | ttwuDoActivate _ => (s.task p).schedClass = .ts
  | wakeUpNewTask => (s.task p).schedClass = .ts
  | setUserNice nice =>
      (s.task p).schedClass = .ts ∧ (s.task p).onRq = true ∧
        ((Sched.setUserNice other s p nice).task p).prio < (s.task p).prio
  | schedSetscheduler attr env user pi =>
      (s.task p).policy ≠ .ts ∧ (s.task p).onRq = true ∧
        ((Sched.schedSetscheduler other env s p attr user pi).2.task p).policy = .ts ∧
        ((Sched.schedSetscheduler other env s p attr user pi).2.task p).schedClass = .ts

/-- What has to be true before the call: nothing, but for a change of policy, where a
reschedule is due already or the running task need not make way. -/
def Noticed (s : Sys X) (p : TaskId) : TsEvent → Prop
  | schedSetscheduler _ _ _ pi =>
      s.needResched = true ∨
        ¬MakesWay (s.task s.curr)
          (if pi then rtEffectivePrio s p (s.task p).staticPrio else (s.task p).staticPrio)
  | _ => True

end TsEvent

/-- The hooks `__sched_setscheduler` calls in the class a task leaves do not ask for a
reschedule. -/
structure SilentHooks (other : OtherClasses X) : Prop where
  dequeueTask : ∀ cls p flags s, (other.hook cls (.dequeueTask p flags) s).resched = false
  switchedFrom : ∀ cls p s, (other.hook cls (.switchedFrom p) s).resched = false
  reweightTask : ∀ p s, (other.hook .fair (.reweightTask p) s).resched = false

/-! ### Wakeups and new tasks -/

/-- `check_preempt_curr` marks whoever should make way. -/
theorem checkPreemptCurr_prompt (hts : (s.task p).schedClass = .ts) (flags : Nat) :
    Prompt (checkPreemptCurr other s p flags) p := by
  have hq := checkPreemptCurr_quiet other s p flags
  intro hway
  rw [hq.curr, hq.task] at hway
  unfold checkPreemptCurr
  rcases hway with hfair | hidle | ⟨hcts, hlt⟩
  · have hafter : preempts .fair .ts SchedClass.forEachClass = true := rfl
    rw [if_neg (by rw [hts, hfair]; simp), hfair, hts, if_pos hafter]
    rfl
  · have hafter : preempts .idle .ts SchedClass.forEachClass = true := rfl
    rw [if_neg (by rw [hts, hidle]; simp), hidle, hts, if_pos hafter]
    rfl
  · rw [if_pos (by rw [hts, hcts]), hcts]
    simp only
    unfold checkPreemptCurrTs
    rw [if_pos hlt]
    rfl

/-- Neither the running task's class and priority nor the mark depends on its state. -/
theorem Prompt.modify (h : Prompt s p) {f : TaskStruct → TaskStruct} {q : TaskId}
    (hcls : (f (s.task q)).schedClass = (s.task q).schedClass)
    (hprio : (f (s.task q)).prio = (s.task q).prio) : Prompt (s.modify q f) p := by
  have hc : ∀ r, ((s.modify q f).task r).schedClass = (s.task r).schedClass := by
    intro r
    by_cases hr : r = q
    · subst hr
      rw [s.modify_task_self, hcls]
    · rw [s.modify_task_of_ne f hr]
  have hp : ∀ r, ((s.modify q f).task r).prio = (s.task r).prio := by
    intro r
    by_cases hr : r = q
    · subst hr
      rw [s.modify_task_self, hprio]
    · rw [s.modify_task_of_ne f hr]
  intro hway
  refine h ?_
  unfold MakesWay at hway ⊢
  rw [hc, hp, hp] at hway
  exact hway

theorem ttwuDoActivate_prompt (hts : (s.task p).schedClass = .ts) (wakeFlags : Nat) :
    Prompt (ttwuDoActivate other s p wakeFlags) p := by
  unfold ttwuDoActivate ttwuDoWakeup
  refine Prompt.modify ?_ rfl rfl
  refine checkPreemptCurr_prompt ?_ wakeFlags
  unfold ttwuActivate
  rw [Sys.modify_task_self]
  exact (enqueueTask_owns other s p _).self.schedClass.trans hts

theorem wakeUpNewTask_prompt (hts : (s.task p).schedClass = .ts) :
    Prompt (wakeUpNewTask other s p) p := by
  unfold wakeUpNewTask
  refine checkPreemptCurr_prompt ?_ 2
  rw [Sys.modify_task_self]
  refine (enqueueTask_owns other _ p _).self.schedClass.trans ?_
  rw [s.modify_task_self]
  exact hts

/-! ### `set_user_nice` -/

theorem enqueueTask_prio (s : Sys X) (p : TaskId) {flags : QueueFlags}
    (hw : flags.wakeup = false) (q : TaskId) :
    ((enqueueTask other s p flags).task q).prio = (s.task q).prio := by
  unfold enqueueTask
  split
  · unfold enqueueTaskTs tsListAddTail
    simp only [hw, Bool.false_eq_true, if_false]
    split <;> rfl
  · exact (enqueueTaskRt_onlyRt s p flags).prio q
  · rfl

theorem enqueueIf_prio (s : Sys X) (p : TaskId) (queued : Bool) {flags : QueueFlags}
    (hw : flags.wakeup = false) (q : TaskId) :
    ((enqueueIf other s p queued flags).task q).prio = (s.task q).prio := by
  unfold enqueueIf
  split
  · exact enqueueTask_prio s p hw q
  · rfl

theorem setUserNice_prompt (hp : p ≠ s.curr) (hon : (s.task p).onRq = true) {nice : Int}
    (hlow : ((setUserNice other s p nice).task p).prio < (s.task p).prio) :
    Prompt (setUserNice other s p nice) p := by
  intro _
  unfold setUserNice at hlow ⊢
  split at hlow
  · omega
  · rename_i hrange
    rw [if_neg hrange]
    split at hlow
    · rw [s.modify_task_self] at hlow
      simp at hlow
    · rename_i hpol
      rw [if_neg hpol]
      simp only at hlow ⊢
      rw [(setCurrIf_quiet other _ p _).task] at hlow
      -- The priority on return is the one the difference was computed with.
      have hdelta : (((setLoadWeight other ((takeOff other s p
          { restore := true, noclock := true }).modify p fun t =>
            { t with staticPrio := niceToPrio nice }) p true).modify p effectivePrio).task p).prio
              - (s.task p).prio < 0 := by
        split at hlow
        · rw [Sys.reschedCurr_task, enqueueIf_prio _ p _ rfl p] at hlow
          omega
        · rw [enqueueIf_prio _ p _ rfl p] at hlow
          omega
      rw [if_pos ⟨hon, Or.inl hdelta⟩]
      unfold setCurrIf
      rw [if_neg (by simpa using Ne.symm hp)]
      rfl

/-! ### `__sched_setscheduler` -/

section silent

variable (hother : SilentHooks other)
include hother

/-- A dequeue marks the running task only if that is a real-time task out of time. -/
theorem dequeueTask_mark (hcurr : (s.task s.curr).schedClass ≠ .rt) (p : TaskId)
    (flags : QueueFlags) : (dequeueTask other s p flags).needResched = s.needResched := by
  unfold dequeueTask
  split
  · rfl
  · unfold dequeueTaskRt
    rw [updateCurrRt_of_ne other hcurr]
    exact (dequeueRtEntity_onlyRt s p flags).needResched
  · show (s.needResched || (other.hook _ (.dequeueTask p flags) s).resched) = _
    rw [hother.dequeueTask, Bool.or_false]

theorem takeOff_mark (hp : p ≠ s.curr) (hcurr : (s.task s.curr).schedClass ≠ .rt)
    (flags : QueueFlags) : (takeOff other s p flags).needResched = s.needResched := by
  unfold takeOff
  simp only
  rw [if_neg (Ne.symm hp)]
  split
  · exact dequeueTask_mark hother hcurr p flags
  · rfl

theorem setscheduler_mark (s : Sys X) (p : TaskId) (attr : SchedAttr) (policy : Policy)
    (keepBoost : Bool) :
    (setscheduler other s p attr policy keepBoost).needResched = s.needResched := by
  show (setLoadWeight other (s.modify p (setschedulerParams attr policy)) p true).needResched = _
  unfold setLoadWeight
  split
  · rfl
  · split
    · show (s.needResched || (other.hook .fair (.reweightTask p) _).resched) = _
      rw [hother.reweightTask, Bool.or_false]
    · rfl

theorem switchedFrom_mark (s : Sys X) (prevClass : SchedClass) (p : TaskId) :
    (switchedFrom other s prevClass p).needResched = s.needResched := by
  unfold switchedFrom
  split
  · rfl
  · rfl
  · show (s.needResched || (other.hook _ (.switchedFrom p) s).resched) = _
    rw [hother.switchedFrom, Bool.or_false]

/-- Arriving in the time-sharing class is no reason to reschedule. -/
theorem checkClassChanged_mark (hts : (s.task p).schedClass = .ts) (prevClass : SchedClass)
    (oldprio : Int) :
    (checkClassChanged other s p prevClass oldprio).needResched = s.needResched := by
  unfold checkClassChanged
  split
  · unfold switchedTo
    rw [(switchedFrom_quiet other s prevClass p).task, hts]
    exact switchedFrom_mark hother s prevClass p
  · split
    · unfold prioChanged
      rw [hts]
      rfl
    · rfl

omit hother in
theorem enqueueTask_ts_mark (hts : (s.task p).schedClass = .ts) (flags : QueueFlags) :
    (enqueueTask other s p flags).needResched = s.needResched := by
  unfold enqueueTask
  rw [hts]
  unfold enqueueTaskTs tsListAddTail
  simp only
  split <;> split <;> rfl

omit hother in
theorem enqueueIf_ts_mark (hts : (s.task p).schedClass = .ts) (queued : Bool)
    (flags : QueueFlags) : (enqueueIf other s p queued flags).needResched = s.needResched := by
  unfold enqueueIf
  split
  · exact enqueueTask_ts_mark hts flags
  · rfl

/-- The first half of a change to `SCHED_TS`, for a task that is not running: off the old
queue, with the new parameters. -/
theorem setscheduler_after_takeOff (hp : p ≠ s.curr) (attr : SchedAttr) (resetFork pi : Bool)
    (flags : QueueFlags) {u : Sys X}
    (hu : setscheduler other (takeOff other
      (s.modify p fun t => { t with schedResetOnFork := resetFork }) p flags) p attr .ts pi = u) :
    ((s.task s.curr).schedClass ≠ .rt → u.needResched = s.needResched) ∧ u.curr = s.curr ∧
      u.task s.curr = s.task s.curr ∧ (u.task p).prio
        = if pi then rtEffectivePrio s p (s.task p).staticPrio else (s.task p).staticPrio := by
  have hprio1 : ∀ q, ((s.modify p fun t => { t with schedResetOnFork := resetFork }).task q).prio
      = (s.task q).prio := by
    intro q
    by_cases hq : q = p
    · subst hq
      rw [s.modify_task_self]
    · rw [s.modify_task_of_ne _ hq]
  have hself1 := s.modify_task_self p fun t => { t with schedResetOnFork := resetFork }
  have hcurr1 : (s.modify p fun t => { t with schedResetOnFork := resetFork }).task s.curr
      = s.task s.curr := s.modify_task_of_ne _ (Ne.symm hp)
  have hsys1 : (s.modify p fun t => { t with schedResetOnFork := resetFork }).curr = s.curr ∧
      (s.modify p fun t => { t with schedResetOnFork := resetFork }).needResched
        = s.needResched := ⟨rfl, rfl⟩
  generalize s.modify p (fun t => { t with schedResetOnFork := resetFork }) = s₁
    at hself1 hprio1 hcurr1 hsys1 hu
  have hmark2 : (s.task s.curr).schedClass ≠ .rt →
      (takeOff other s₁ p flags).needResched = s₁.needResched := by
    intro hcurr
    refine takeOff_mark hother ?_ ?_ flags
    · rw [hsys1.1]
      exact hp
    · rw [hsys1.1, hcurr1]
      exact hcurr
  have hown2 := takeOff_owns other s₁ p flags
  have hprio2 := fun q => (takeOff_prio other s₁ p flags q).1
  generalize takeOff other s₁ p flags = s₂ at hmark2 hown2 hprio2 hu
  have hquiet := setscheduler_quiet other (s := s₂) (p := p) attr .ts pi
  have hstatic : (s₂.task p).staticPrio = (s.task p).staticPrio := by
    rw [hown2.self.staticPrio, hself1]
  have hdonor : (s₂.task p).piTopTask = (s.task p).piTopTask := by
    rw [hown2.self.piTopTask, hself1]
  subst hu
  refine ⟨?_, ?_, ?_, ?_⟩
  · intro hcurr
    rw [setscheduler_mark hother, hmark2 hcurr, hsys1.2]
  · rw [hquiet.curr]
    exact hown2.curr.trans hsys1.1
  · rw [hquiet.task, Sys.modify_task_of_ne _ _ (Ne.symm hp), hown2.frame _ (Ne.symm hp), hcurr1]
  · rw [hquiet.task, Sys.modify_task_self]
    show setschedulerPrio s₂ p attr .ts pi = _
    rw [setschedulerPrio_ts, hstatic,
      rtEffectivePrio_congr hdonor fun q => (hprio2 q).trans (hprio1 q)]

/-- The second half: onto the lists of the time-sharing class, if the task was queued. -/
theorem checkClassChanged_after_enqueue {queued : Bool} {flags : QueueFlags}
    {prevClass : SchedClass} {oldprio : Int} {u : Sys X}
    (hu : checkClassChanged other (enqueueIf other s p queued flags) p prevClass oldprio = u)
    (hw : flags.wakeup = false) (hts : (s.task p).schedClass = .ts) :
    u.needResched = s.needResched ∧ u.curr = s.curr ∧ (∀ q, q ≠ p → u.task q = s.task q) ∧
      (u.task p).prio = (s.task p).prio := by
  have hown := enqueueIf_owns other s p queued flags
  have hquiet := checkClassChanged_quiet other (enqueueIf other s p queued flags) p prevClass oldprio
  have hcls : ((enqueueIf other s p queued flags).task p).schedClass = .ts :=
    hown.self.schedClass.trans hts
  subst hu
  refine ⟨?_, ?_, ?_, ?_⟩
  · rw [checkClassChanged_mark hother hcls, enqueueIf_ts_mark hts]
  · rw [hquiet.curr, hown.curr]
  · intro q hq
    rw [hquiet.task, hown.frame q hq]
  · rw [hquiet.task, enqueueIf_prio s p queued hw p]

/-- What a change to `SCHED_TS` comes to for a task that is not running. -/
theorem setschedulerChange_ts (hp : p ≠ s.curr) {attr : SchedAttr} {resetFork pi : Bool}
    (hts : ((setschedulerChange other s p attr .ts resetFork pi).task p).schedClass = .ts) :
    ((s.task s.curr).schedClass ≠ .rt →
        (setschedulerChange other s p attr .ts resetFork pi).needResched = s.needResched) ∧
      (setschedulerChange other s p attr .ts resetFork pi).task s.curr = s.task s.curr ∧
      (setschedulerChange other s p attr .ts resetFork pi).curr = s.curr ∧
      ((setschedulerChange other s p attr .ts resetFork pi).task p).prio
        = if pi then rtEffectivePrio s p (s.task p).staticPrio else (s.task p).staticPrio := by
  have hnotrunning : ∀ v : Sys X, setCurrIf other v p
      (decide ((s.modify p fun t => { t with schedResetOnFork := resetFork }).curr = p)) = v := by
    intro v
    unfold setCurrIf
    rw [if_neg fun hrun => hp (of_decide_eq_true hrun).symm]
  unfold setschedulerChange at hts ⊢
  simp only [hnotrunning] at hts ⊢
  generalize hu : setscheduler other (takeOff other
    (s.modify p fun t => { t with schedResetOnFork := resetFork }) p _) p attr .ts pi = u at hts ⊢
  obtain ⟨hmark, hcurr, htask, hprio⟩ := setscheduler_after_takeOff hother hp attr resetFork pi _ hu
  have hts' : (u.task p).schedClass = .ts := by
    rw [(checkClassChanged_quiet other _ p _ _).task] at hts
    exact (enqueueIf_owns other u p _ _).self.schedClass.symm.trans hts
  generalize hv : checkClassChanged other (enqueueIf other u p _ _) p _ _ = v at hts ⊢
  obtain ⟨hmark', hcurr', htask', hprio'⟩ := checkClassChanged_after_enqueue hother hv rfl hts'
  refine ⟨fun hne => hmark'.trans (hmark hne), ?_, hcurr'.trans hcurr, hprio'.trans hprio⟩
  rw [htask' _ (Ne.symm hp)]
  exact htask

end silent

/-! ### The four together -/

/-- A request that changes the policy has passed the checks. -/
theorem schedSetscheduler_change {env : SetschedulerEnv} {attr : SchedAttr} {user pi : Bool}
    (hold : (s.task p).policy ≠ .ts)
    (hnew : ((schedSetscheduler other env s p attr user pi).2.task p).policy = .ts) :
    ∃ resetFork, (schedSetscheduler other env s p attr user pi).2
      = setschedulerChange other s p attr .ts resetFork pi := by
  unfold schedSetscheduler at hnew ⊢
  simp only at hnew ⊢
  split at hnew
  · exact absurd hnew hold
  · rename_i policy hpol
    split at hnew
    · exact absurd hnew hold
    · rw [s.modify_task_self] at hnew
      exact absurd hnew hold
    · rename_i hcheck
      have hts : policy = .ts := by
        rw [← setschedulerChange_policy other s p attr policy _ pi]
        exact hnew
      subst hts
      exact ⟨_, rfl⟩

/--
**Preemption.**  Whatever the state, a task of the class that becomes eligible while
another task runs gets the running task marked if it should make way, exactly when the
event is not a change of policy, or a reschedule is due anyway, or nobody has to make way.
-/
theorem prompt_iff (hother : SilentHooks other) (hp : p ≠ s.curr) (ev : TsEvent)
    (hev : ev.Raises other s p) : Prompt (ev.exec other s p) p ↔ ev.Noticed s p := by
  cases ev with
  | ttwuDoActivate wakeFlags => exact iff_of_true (ttwuDoActivate_prompt hev wakeFlags) trivial
  | wakeUpNewTask => exact iff_of_true (wakeUpNewTask_prompt hev) trivial
  | setUserNice nice => exact iff_of_true (setUserNice_prompt hp hev.2.1 hev.2.2) trivial
  | schedSetscheduler attr env user pi =>
      obtain ⟨hold, -, hpol, hts⟩ := hev
      obtain ⟨resetFork, heq⟩ := schedSetscheduler_change hold hpol
      rw [heq] at hts
      obtain ⟨hmark, htask, hcurr, hprio⟩ := setschedulerChange_ts hother hp hts
      show Prompt (schedSetscheduler other env s p attr user pi).2 p ↔ _
      unfold Prompt
      rw [heq, hcurr, htask, hprio]
      by_cases hrt : (s.task s.curr).schedClass = .rt
      · -- A real-time task need not make way.
        have hstay : ∀ prio, ¬MakesWay (s.task s.curr) prio := by
          intro prio
          simp [MakesWay, hrt]
        exact iff_of_true (fun hway => absurd hway (hstay _)) (Or.inr (hstay _))
      rw [hmark hrt]
      show (_ → _) ↔ (_ ∨ ¬_)
      rw [or_comm]
      exact imp_iff_not_or

theorem queueFair_silent : SilentHooks queueFair where
  dequeueTask cls _ _ _ := by cases cls <;> rfl
  switchedFrom cls _ _ := by cases cls <;> rfl
  reweightTask _ _ := rfl

/-- A sleeping task wakes while the idle task runs, and the idle task is marked. -/
theorem prompt_iff_wakeup :
    ∃ s, Runs.run (step queueFair) bootSys
        [.toTs 1, .setCurrentState .interruptible, .schedule false false] = some s ∧
      (s.task s.curr).schedClass = .idle ∧
      Prompt ((TsEvent.ttwuDoActivate 0).exec queueFair s 1) 1 := by
  refine ⟨_, rfl, rfl, ?_⟩
  refine (prompt_iff queueFair_silent ?_ (.ttwuDoActivate 0) ?_).mpr trivial
  · decide
  · rfl

/-- A second fair task is queued and becomes `SCHED_TS` while the first one runs; the first
one is not told. -/
theorem prompt_fails_for_setscheduler :
    ∃ s, Runs.run (step queueFair) bootSys [.schedFork 2, .wakeUpNewTask 2] = some s ∧
      2 ≠ s.curr ∧
      (TsEvent.schedSetscheduler (plainAttr 10 0) rootEnv true true).Raises queueFair s 2 ∧
      ¬Prompt ((TsEvent.schedSetscheduler (plainAttr 10 0) rootEnv true true).exec queueFair s 2)
        2 := by
  refine ⟨_, rfl, by decide, ⟨by decide, rfl, rfl, rfl⟩, ?_⟩
  intro hprompt
  have hmark := hprompt (Or.inl rfl)
  exact absurd hmark (by decide +kernel)

end Sched
