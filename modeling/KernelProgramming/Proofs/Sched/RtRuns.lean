/-
The real-time runqueue in every state the machine reaches.

Four operations dequeue a task, change it and enqueue it again, and the enqueue
trusts what the dequeue has left: without `DEQUEUE_MOVE` the entity stays on its
list, so the list is only right if the priority has not changed meanwhile.
`putBack_rtOK` is where that is needed and `setscheduler_prio` is where it comes
from.
-/
import KernelProgramming.Proofs.Sched.Slices
import KernelProgramming.Proofs.Sched.RtQueue

namespace Sched

variable {X : Type} {other : OtherClasses X} {s s' t : Sys X} {p : TaskId}
variable {on : TaskId → Bool} {saved : Option TaskId}

/-! ### Dispatch -/

variable (other) in
theorem enqueueTask_rtOK (h : RtOK s) {flags : QueueFlags}
    (hl : Linked on (savedBy (s.task p) p flags) s) (hp : on p = false) :
    RtOK (enqueueTask other s p flags) := by
  unfold enqueueTask
  split
  · rename_i hts
    rw [savedBy_of_ne_rt (by simp [hts])] at hl
    have hnot : ∀ i, p ∉ s.rtQueue i := by
      intro i hmem
      have hrt := (hl.mem_rt hmem).2
      rw [hts] at hrt
      simp at hrt
    have hoff : (s.task p).rt.onRq = false := by
      simpa [hts] using hl.rtOn p
    have hsame := enqueueTaskTs_rt s p flags
    exact h.of_frame (enqueueTaskTs_rtRq s p flags) (enqueueTaskTs_owns s p flags).frame hoff
      (by rw [hsame]; exact hoff) (by rw [hsame]) fun i hmem => absurd hmem (hnot i)
  · rename_i hrt
    refine enqueueTaskRt_rtOK h hl hp hrt flags ?_
    unfold savedBy
    cases moveEntity flags <;> simp [hrt]
  · exact h.of_task_eq rfl rfl

variable (other) in
theorem dequeueTask_rtOK (h : RtOK s) (hl : Linked on none s) (hp : on p = true)
    (flags : QueueFlags) : RtOK (dequeueTask other s p flags) := by
  unfold dequeueTask
  split
  · exact h.of_task_eq rfl rfl
  · rename_i hrt
    exact dequeueTaskRt_rtOK other h hl hp hrt flags
  · exact h.of_task_eq rfl rfl

variable (other) in
theorem takeOff_rtOK (h : RtOK s) (hl : LinkedOnRq s) (p : TaskId) (flags : QueueFlags) :
    RtOK (takeOff other s p flags) := by
  have hdeq : RtOK (if (s.task p).onRq then dequeueTask other s p flags else s) := by
    split
    · rename_i hon
      exact dequeueTask_rtOK other h hl hon flags
    · exact h
  unfold takeOff
  simp only
  split
  · exact putPrevTask_rtOK hdeq p
  · exact hdeq

/-- Take a task off its list, rewrite it, put it back.  If it has been left on its list, it
has to keep its priority. -/
theorem putBack_rtOK (h : Inv s) (hr : RtOK s) {f : TaskStruct → TaskStruct} {flags : QueueFlags}
    (flags' : QueueFlags) {u : Sys X} (hu : Quiet ((takeOff other s p flags).modify p f) u)
    (hrq : u.rtRq = (takeOff other s p flags).rtRq)
    (hok : TaskOK (f ((takeOff other s p flags).task p)))
    (hrt : (f ((takeOff other s p flags).task p)).rt.onRq
        = ((takeOff other s p flags).task p).rt.onRq ∧
      (f ((takeOff other s p flags).task p)).rt.onList
        = ((takeOff other s p flags).task p).rt.onList)
    (hsaved : savedBy (s.task p) p flags = savedBy (u.task p) p flags')
    (hprio : savedBy (s.task p) p flags = some p →
      (f ((takeOff other s p flags).task p)).prio = (s.task p).prio) :
    RtOK (enqueueIf other u p (s.task p).onRq flags') := by
  have hoffL := takeOff_linked (p := p) other h.linked rfl flags
  have hoff : ((takeOff other s p flags).task p).rt.onRq = false := by
    simpa using hoffL.rtOn p
  have hself : u.task p = f ((takeOff other s p flags).task p) := by
    rw [hu.task, Sys.modify_task_self]
  have hru : RtOK u := by
    refine (takeOff_rtOK other hr h.linked p flags).of_frame (p := p) hrq ?_ hoff ?_ ?_ ?_
    · intro q hq
      rw [hu.task, Sys.modify_task_of_ne _ _ hq]
    · rw [hself, hrt.1]
      exact hoff
    · rw [hself, hrt.2]
    · -- Whoever is still on a list has been saved there.
      intro i hmem
      rw [hself, (takeOff_prio other s p flags p).1]
      refine hprio ?_
      have hcount := hoffL.rt p
      rw [without_self] at hcount
      have hne := Levels.count_ne_zero.mpr ⟨i, hmem⟩
      by_contra hnone
      refine hne (hcount.trans (if_neg ?_))
      simp only [Bool.false_eq_true, false_and, false_or]
      split
      · exact hnone
      · simp
  have hl := (hoffL.rewrite hok hrt.1).of_quiet hu
  rw [hsaved] at hl
  unfold enqueueIf
  cases hq : (s.task p).onRq with
  | true =>
      rw [hq] at hl
      exact enqueueTask_rtOK other hru hl (without_self _ p)
  | false => exact hru

/-! ### Fork, wakeup, ticks and `__schedule` -/

/-- Linking a task that is not queued, and marking it as queued. -/
theorem enqueued_rtOK (h : Inv s) (hr : RtOK s) (hoff : (s.task p).onRq = false)
    {flags : QueueFlags} (hm : moveEntity flags = true) :
    RtOK ((enqueueTask other s p flags).modify p fun t => { t with onRq := true }) := by
  have hl : Linked (fun q => (s.task q).onRq) (savedBy (s.task p) p flags) s := by
    rw [savedBy_of_move hm]
    exact h.linked
  exact (enqueueTask_rtOK other hr hl hoff).modify_same rfl rfl rfl rfl

variable (other) in
theorem forkedTask_rt (t : TaskStruct) :
    (forkedTask other t).rt.onRq = false ∧ (forkedTask other t).rt.onList = false := by
  unfold forkedTask resetOnFork
  dsimp only
  split
  · exact ⟨rfl, rfl⟩
  · split
    · exact ⟨rfl, rfl⟩
    · split <;> exact ⟨rfl, rfl⟩

theorem schedFork_rtOK (h : Inv s) (hr : RtOK s) {child : TaskId}
    (hoff : (s.task child).onRq = false) : RtOK (schedFork other s child).2 := by
  have hnot : ∀ i, child ∉ s.rtQueue i := by
    intro i hmem
    have hon := (h.linked.mem_rt hmem).1
    rw [hoff] at hon
    simp at hon
  have hrtoff : (s.task child).rt.onRq = false := by
    have := h.linked.rtOn child
    simpa [hoff] using this
  have hlistoff : (s.task child).rt.onList = false := by
    have := hr.onList child
    simpa [Sys.rtRq, hnot] using this
  have hforked := forkedTask_rt other (s.task s.curr)
  unfold schedFork
  simp only
  split
  · exact hr
  · generalize forkedTask other (s.task s.curr) = t at hforked
    have hnew : RtOK (s.modify child fun _ => { t with schedClass := classOf t.prio t.policy }) := by
      refine hr.of_frame (p := child) rfl (fun q hq => s.modify_task_of_ne _ hq) hrtoff ?_ ?_
        fun i hmem => absurd hmem (hnot i)
      · rw [s.modify_task_self]
        exact hforked.1
      · rw [s.modify_task_self, hlistoff]
        exact hforked.2
    split
    · exact hnew
    · exact hnew
    · exact hnew.of_task_eq rfl rfl

theorem wakeUpNewTask_rtOK (h : Inv s) (hr : RtOK s) (hnew : (s.task p).state = .new) :
    RtOK (wakeUpNewTask other s p) := by
  have h1 : Inv (s.modify p fun t => { t with state := .running }) :=
    h.setState (by simp) fun _ => rfl
  have hr1 : RtOK (s.modify p fun t => { t with state := .running }) := hr.modify_same rfl rfl rfl rfl
  have henq : RtOK ((enqueueTask other (s.modify p fun t => { t with state := .running }) p
      { noclock := true }).modify p fun t => { t with onRq := true }) := by
    refine enqueued_rtOK h1 hr1 ?_ rfl
    rw [s.modify_task_self]
    exact h.new p hnew
  exact henq.of_task_eq (checkPreemptCurr_rtRq _ p 2) (checkPreemptCurr_quiet other _ p 2).task

theorem ttwuDoWakeup_rtOK (hr : RtOK s) (wakeFlags : Nat) :
    RtOK (ttwuDoWakeup other s p wakeFlags) :=
  RtOK.modify_same (hr.of_task_eq (checkPreemptCurr_rtRq s p wakeFlags)
    (checkPreemptCurr_quiet other s p wakeFlags).task) rfl rfl rfl rfl

theorem tryToWakeUp_rtOK (h : Inv s) (hr : RtOK s) (wakeFlags : Nat) :
    RtOK (tryToWakeUp other s p wakeFlags) := by
  unfold tryToWakeUp
  split
  · exact hr
  · split
    · exact ttwuDoWakeup_rtOK hr wakeFlags
    · rename_i hoff
      exact ttwuDoWakeup_rtOK (enqueued_rtOK h hr (by simpa using hoff) rfl) wakeFlags

variable (other) in
theorem deactivatePrev_rtOK (h : Inv s) (hr : RtOK s) (preempt signalPending : Bool) :
    RtOK (deactivatePrev other s preempt signalPending) := by
  unfold deactivatePrev
  split
  · split
    · exact hr.modify_same rfl rfl rfl rfl
    · exact (dequeueTask_rtOK other hr h.linked h.curr _).modify_same rfl rfl rfl rfl
  · exact hr

theorem schedule_rtOK (h : Inv s) (hr : RtOK s) (preempt signalPending : Bool) :
    RtOK (schedule other s preempt signalPending) := by
  have hprev := deactivatePrev_rtOK other h hr preempt signalPending
  have hready := deactivatePrev_ready other h preempt signalPending
  unfold schedule
  simp only
  generalize deactivatePrev other s preempt signalPending = u at hprev hready
  obtain ⟨⟨next, v⟩, hpick, -, hquiet⟩ := pickNextTask_own other hready u.curr
  rw [hpick]
  have hv : RtOK v := pickNextTask_rtOK hprev hpick
  exact hv.of_task_eq rfl rfl

theorem taskSchedRuntime_rtOK (hr : RtOK s) (p : TaskId) : RtOK (taskSchedRuntime other s p) := by
  unfold taskSchedRuntime
  split
  · exact updateCurr_rtOK hr p
  · exact hr

theorem schedulerTick_rtOK (h : Inv s) (hr : RtOK s) : RtOK (schedulerTick other s) := by
  unfold schedulerTick taskTick
  split
  · rename_i hts
    have hoff : (s.task s.curr).rt.onRq = false := by
      simpa [hts] using h.linked.rtOn s.curr
    have hsame := taskTickTs_rt h.linked h.curr hts
    refine hr.of_frame (taskTickTs_rtRq s s.curr) (taskTickTs_owns s s.curr).frame hoff
      (by rw [hsame]; exact hoff) (by rw [hsame]) fun i hmem => ?_
    have hrt := (h.linked.mem_rt hmem).2
    rw [hts] at hrt
    simp at hrt
  · exact taskTickRt_rtOK other hr h.linked
  · exact hr.of_task_eq rfl rfl

variable (other) in
theorem yieldTask_rtOK (h : Inv s) (hr : RtOK s) : RtOK (yieldTask other s) := by
  unfold yieldTask
  split
  · exact hr.of_task_eq (tsListAddTail_rtRq _ s.curr _) (tsListAddTail_task (tsListDel s s.curr) s.curr _)
  · exact requeueTaskRt_rtOK hr (hr.onItsList h.linked s.curr)
  · exact hr.of_task_eq rfl rfl

/-! ### Changing how a task is scheduled -/

theorem savedBy_eq_some {t : TaskStruct} {flags : QueueFlags} (h : savedBy t p flags = some p) :
    t.schedClass = .rt ∧ moveEntity flags = false := by
  unfold savedBy at h
  split at h
  · rename_i hboth
    exact hboth
  · simp at h

theorem TaskOK.rt_range {t : TaskStruct} (h : TaskOK t) (hrt : t.schedClass = .rt) :
    0 ≤ t.prio ∧ t.prio < 100 := by
  have hcls := h.cls
  rw [hrt] at hcls
  exact hcls

theorem setUserNice_rtOK (h : Inv s) (hr : RtOK s) (nice : Int) :
    RtOK (setUserNice other s p nice) := by
  unfold setUserNice
  split
  · exact hr
  · rename_i hchange
    split
    · exact hr.modify_same rfl rfl rfl rfl
    · rename_i hpol
      rw [not_or, Bool.not_eq_true, Bool.not_eq_true] at hpol
      have hnice : -20 ≤ nice ∧ nice ≤ 19 := by omega
      have hsame := (takeOff_owns other s p { restore := true, noclock := true }).self
      have hok := takeOff_taskOK other (p := p) h { restore := true, noclock := true }
      have hprio := (takeOff_prio other s p { restore := true, noclock := true } p).1
      have hu := Quiet.modify (g := effectivePrio) (setLoadWeight_quiet other
        ((takeOff other s p { restore := true, noclock := true }).modify p fun t =>
          { t with staticPrio := niceToPrio nice }) p true)
      have hput := putBack_rtOK h hr { restore := true, noclock := true } hu
        (setLoadWeight_rtRq _ p true)
        (hok.renice hnice (by rw [hsame.policy]; exact hpol.1) (by rw [hsame.policy]; exact hpol.2))
        ⟨rfl, rfl⟩
        (by unfold savedBy; rw [hu.task, Sys.modify_task_self]; simp [effectivePrio, hsame.schedClass])
        (by
          -- A real-time priority is nobody's nice value.
          intro hsaved
          have hrange := (h.linked.tasks p).rt_range (savedBy_eq_some hsaved).1
          show (if !rtPrio ((takeOff other s p _).task p).prio then _ else _) = _
          rw [hprio, if_neg (by simpa using hrange.2)])
      simp only
      refine RtOK.of_task_eq ?_ (setCurrIf_rtRq _ p _) (setCurrIf_quiet other _ p _).task
      split
      · exact hput.of_task_eq rfl rfl
      · exact hput

theorem doSetCpusAllowed_rtOK (h : Inv s) (hr : RtOK s) : RtOK (doSetCpusAllowed other s p) := by
  have hsame := (takeOff_owns other s p { restore := true, noclock := true }).self
  have hquiet : Quiet ((takeOff other s p { restore := true, noclock := true }).modify p id)
      (takeOff other s p { restore := true, noclock := true }) := by
    rw [show (takeOff other s p { restore := true, noclock := true }).modify p id
      = takeOff other s p { restore := true, noclock := true } by simp [Sys.modify]]
    exact Quiet.refl _
  have hput := putBack_rtOK h hr { restore := true, noclock := true } hquiet rfl
    (takeOff_taskOK other h _) ⟨rfl, rfl⟩ (by unfold savedBy; rw [hsame.schedClass])
    fun _ => (takeOff_prio other s p _ p).1
  exact hput.of_task_eq (setCurrIf_rtRq _ p _) (setCurrIf_quiet other _ p _).task

theorem setscheduler_rtRq (s : Sys X) (p : TaskId) (attr : SchedAttr) (policy : Policy)
    (keepBoost : Bool) : (setscheduler other s p attr policy keepBoost).rtRq = s.rtRq := by
  unfold setscheduler
  exact setLoadWeight_rtRq (s.modify p (setschedulerParams attr policy)) p true

/-- The request that is not moved keeps its priority. -/
theorem setschedulerChange_rtOK (h : Inv s) (hr : RtOK s) (hidle : p ≠ s.idle)
    (hstop : s.stop ≠ some p) {attr : SchedAttr} {policy : Policy}
    (hpol : requestedPolicy (s.task p) attr = some policy)
    (hnice : -20 ≤ attr.schedNice ∧ attr.schedNice ≤ 19)
    (hrt : policy.rtPolicy = true → 1 ≤ attr.schedPriority ∧ attr.schedPriority ≤ 99)
    (hnrt : policy.rtPolicy = false → attr.schedPriority = 0) (resetFork pi : Bool) :
    RtOK (setschedulerChange other s p attr policy resetFork pi) := by
  unfold setschedulerChange
  simp only
  have h1 := h.setResetOnFork (p := p) resetFork
  have hr1 : RtOK (s.modify p fun t => { t with schedResetOnFork := resetFork }) :=
    hr.modify_same rfl rfl rfl rfl
  have hpol1 : requestedPolicy ((s.modify p fun t =>
      { t with schedResetOnFork := resetFork }).task p) attr = some policy := by
    rw [s.modify_task_self]
    exact hpol
  replace hidle : p ≠ (s.modify p fun t => { t with schedResetOnFork := resetFork }).idle := hidle
  replace hstop : (s.modify p fun t => { t with schedResetOnFork := resetFork }).stop ≠ some p :=
    hstop
  generalize s.modify p (fun t => { t with schedResetOnFork := resetFork }) = s₁
    at h1 hr1 hpol1 hidle hstop
  refine RtOK.of_task_eq ?_ (checkClassChanged_rtRq _ p _ _)
    (checkClassChanged_quiet other _ p _ _).task
  refine RtOK.of_task_eq ?_ (setCurrIf_rtRq _ p _) (setCurrIf_quiet other _ p _).task
  generalize hflags : ({ restore := true
                         move := !(pi && decide (rtEffectivePrio s₁ p
                          (if attr.schedPolicy = 6 then -1 else maxRtPrio - 1 - attr.schedPriority)
                            = (s₁.task p).prio))
                         noclock := true } : QueueFlags) = flags
  -- Without `DEQUEUE_MOVE` the request is one that keeps the boosted priority.
  have hmove : moveEntity flags = false → pi = true ∧ rtEffectivePrio s₁ p
      (if attr.schedPolicy = 6 then -1 else maxRtPrio - 1 - attr.schedPriority)
        = (s₁.task p).prio := by
    intro hm
    rw [← hflags] at hm
    simpa [moveEntity] using hm
  have hquiet := setscheduler_quiet other (s := takeOff other s₁ p flags) (p := p)
    attr policy pi
  have hsame := (takeOff_owns other s₁ p flags).self
  have hkept := takeOff_prio other s₁ p flags
  refine putBack_rtOK h1 hr1 _ hquiet (setscheduler_rtRq _ p attr policy pi)
    (rescheduled_ok other h1 hnice hrt flags pi) ?_ ?_ ?_
  · have hparams := (setschedulerParams_kept attr policy ((takeOff other s₁ p flags).task p)).2.1
    exact ⟨congrArg SchedRtEntity.onRq hparams, congrArg SchedRtEntity.onList hparams⟩
  · rw [hquiet.task, Sys.modify_task_self]
    by_cases hm : moveEntity flags = true
    · rw [savedBy_of_move hm, savedBy_of_move]
      rw [← hflags] at hm
      exact hm
    · obtain ⟨rfl, heff⟩ := hmove (by simpa using hm)
      have hcls := rescheduled_rt_iff other h1 hidle hstop hpol1 hnice hrt hnrt heff flags
      exact savedBy_congr hcls (by rw [← hflags]) (by rw [← hflags])
  · intro hsaved
    obtain ⟨hclass, hm⟩ := savedBy_eq_some hsaved
    obtain ⟨rfl, heff⟩ := hmove hm
    have hrange := (h1.linked.tasks p).rt_range hclass
    have hprio := setscheduler_prio (p := p) (takeOff_linked other h1.linked rfl flags).tasks
      (by unfold requestedPolicy at hpol1 ⊢; rw [hsame.policy]; exact hpol1) hnice hrt hnrt
      (by rw [rtEffectivePrio_congr hsame.piTopTask (fun q => (hkept q).1), heff, (hkept p).1])
    rw [(hkept p).1] at hprio
    rcases hprio with hsamePrio | hneg
    · exact hsamePrio
    · omega

theorem schedSetscheduler_rtOK (h : Inv s) (hr : RtOK s) (hidle : p ≠ s.idle) {attr : SchedAttr}
    (hnice : -20 ≤ attr.schedNice ∧ attr.schedNice ≤ 19) (env : SetschedulerEnv)
    (user pi : Bool) : RtOK (schedSetscheduler other env s p attr user pi).2 := by
  have hflag : ∀ resetFork, RtOK (s.modify p fun t => { t with schedResetOnFork := resetFork }) :=
    fun _ => hr.modify_same rfl rfl rfl rfl
  unfold schedSetscheduler
  simp only
  split
  · exact hr
  · rename_i policy hpol
    split
    · exact hr
    · exact hflag _
    · rename_i hcheck
      obtain ⟨hstop, hrt, hnrt⟩ := setschedulerCheck_change hcheck
      exact setschedulerChange_rtOK h hr hidle (by simpa using hstop) hpol hnice hrt hnrt _ pi

/-- `rt_mutex_setprio` goes on only with a new priority or a deadline priority, so a task of
the class is never saved on its list here. -/
theorem boosted_moves (h : TaskOK (s.task p)) {prio : Int}
    (hchange : ¬(prio = (s.task p).prio ∧ dlPrio prio = false)) {flags : QueueFlags}
    (hmove : flags.move = decide ((s.task p).prio ≠ prio))
    (hrt : (s.task p).schedClass = .rt ∨ piClassOf prio = .rt) : moveEntity flags = true := by
  have hne : (s.task p).prio ≠ prio := by
    intro heq
    have hneg : prio < 0 := by
      by_contra hge
      exact hchange ⟨heq.symm, by rw [dlPrio_eq_false]; omega⟩
    rcases hrt with hold | hnew
    · have hrange := h.rt_range hold
      omega
    · unfold piClassOf at hnew
      rw [if_pos (by simpa using hneg)] at hnew
      simp at hnew
  unfold moveEntity
  rw [hmove]
  simp [hne]

/-- The boost itself, whatever the flags of the enqueue say beyond those of the dequeue. -/
theorem boosted_rtOK (h : Inv s) (hr : RtOK s) (piTask : Option TaskId) {prio : Int}
    (hok : PrioOK prio) (hle : prio ≤ (s.task p).normalPrio)
    (hchange : ¬(prio = (s.task p).prio ∧ dlPrio prio = false)) {flags flags' : QueueFlags}
    (hmove : flags.move = decide ((s.task p).prio ≠ prio))
    (hflags : moveEntity flags' = moveEntity flags) :
    RtOK (enqueueIf other
      ((takeOff other (withDonor s p piTask) p flags).modify p (boosted prio (s.task p).prio))
      p (s.task p).onRq flags') := by
  have hdonor : Inv (withDonor s p piTask) := h.setDonor piTask
  have hrdonor : RtOK (withDonor s p piTask) := hr.modify_same rfl rfl rfl rfl
  have hself : (withDonor s p piTask).task p = { s.task p with piTopTask := piTask } :=
    s.modify_task_self ..
  have hon : ((withDonor s p piTask).task p).onRq = (s.task p).onRq := by rw [hself]
  have hsame := (takeOff_owns other (withDonor s p piTask) p flags).self
  have htask := takeOff_taskOK other (p := p) hdonor flags
  -- Nobody of the class is saved, before or after.
  have hnone : ∀ {t : TaskStruct} {fl : QueueFlags}, moveEntity fl = moveEntity flags →
      (t.schedClass = .rt → (s.task p).schedClass = .rt ∨ piClassOf prio = .rt) →
      savedBy t p fl = none := by
    intro t fl hfl hclass
    by_cases hrt : t.schedClass = .rt
    · exact savedBy_of_move
        (hfl.trans (boosted_moves (h.linked.tasks p) hchange hmove (hclass hrt)))
    · exact savedBy_of_ne_rt hrt
  have hold : savedBy ((withDonor s p piTask).task p) p flags = none :=
    hnone rfl fun hrt => Or.inl (by rw [hself] at hrt; exact hrt)
  rw [← hon]
  refine putBack_rtOK hdonor hrdonor flags' (Quiet.refl _) rfl ?_ ?_ ?_ ?_
  · exact htask.setPi hok (by rw [hsame.normalPrio, hself]; exact hle) _
  · show (if _ then _ else _ : SchedRtEntity).onRq = _ ∧ (if _ then _ else _ : SchedRtEntity).onList = _
    split <;> exact ⟨rfl, rfl⟩
  · rw [hold, hnone hflags]
    intro hrt
    rw [Sys.modify_task_self] at hrt
    exact Or.inr hrt
  · intro hsaved
    rw [hold] at hsaved
    simp at hsaved

theorem rtMutexSetprio_rtOK (h : Inv s) (hr : RtOK s) (piTask : Option TaskId) :
    RtOK (rtMutexSetprio other s p piTask) := by
  have hprioOK := rtEffectivePrioOf_ok h.linked.tasks piTask (h.linked.tasks p).normal
  have hle := rtEffectivePrioOf_le s piTask (s.task p).normalPrio
  have hrdonor : RtOK (withDonor s p piTask) := hr.modify_same rfl rfl rfl rfl
  unfold rtMutexSetprio
  simp only [s.modify_task_self, s.modify_idle]
  generalize rtEffectivePrioOf s piTask (s.task p).normalPrio = prio at hprioOK hle
  split
  · exact hr
  · split
    · exact hrdonor
    · rename_i hchange
      split
      · exact hrdonor
      · refine RtOK.of_task_eq ?_ (checkClassChanged_rtRq _ p _ _)
          (checkClassChanged_quiet other _ p _ _).task
        refine RtOK.of_task_eq ?_ (setCurrIf_rtRq _ p _) (setCurrIf_quiet other _ p _).task
        refine boosted_rtOK h hr piTask hprioOK hle
          (fun hsame => hchange ⟨hsame.1, by simpa using hsame.2⟩) rfl ?_
        split
        · rfl
        · split <;> rfl

/-! ### Whole runs -/

/-- **Every operation keeps the runqueue of the real-time class in order.** -/
theorem step_rtOK {op : Op} (h : Inv s) (hr : RtOK s) (hstep : step other s op = some s') :
    RtOK s' := by
  obtain ⟨hen, rfl⟩ := step_eq_some hstep
  cases op with
  | schedFork child => exact schedFork_rtOK h hr hen.2.1
  | wakeUpNewTask p => exact wakeUpNewTask_rtOK h hr hen
  | tryToWakeUp p wakeFlags => exact tryToWakeUp_rtOK h hr wakeFlags
  | setCurrentState st =>
      exact hr.modify_same (p := s.curr) (f := fun t => { t with state := st }) rfl rfl rfl rfl
  | schedule preempt signalPending => exact schedule_rtOK h hr preempt signalPending
  | doSchedYield signalPending =>
      exact schedule_rtOK (yieldTask_inv other h) (yieldTask_rtOK other h hr) false signalPending
  | doTaskDead =>
      have hdead := h.setState (p := s.curr) (show TaskState.dead ≠ .new by simp)
        fun heq => absurd heq hen
      exact schedule_rtOK hdead (hr.modify_same rfl rfl rfl rfl) false false
  | schedulerTick => exact schedulerTick_rtOK h hr
  | taskSchedRuntime p => exact taskSchedRuntime_rtOK hr p
  | doSchedRtPeriodTimer => exact doSchedRtPeriodTimer_rtOK other hr
  | setUserNice p nice => exact setUserNice_rtOK h hr nice
  | doSetCpusAllowed p => exact doSetCpusAllowed_rtOK h hr
  | schedSetscheduler p attr env user pi =>
      exact schedSetscheduler_rtOK h hr hen.1 hen.2.2 env user pi
  | rtMutexSetprio p piTask => exact rtMutexSetprio_rtOK h hr piTask

/-- `struct rt_rq` as `init_rt_rq` leaves it, and every entity as `__sched_fork` does. -/
structure InitRtRq (s : Sys X) : Prop where
  bitmap : ∀ i, s.rtBitmap i = false
  nrRunning : s.rtNrRunning = 0
  rrNrRunning : s.rrNrRunning = 0
  queued : s.rtQueued = false
  highestPrio : s.rtHighestPrio = maxRtPrio
  onList : ∀ q, (s.task q).rt.onList = false

theorem InitRtRq.rtOK (hinit : InitRtRq s) (hboot : Boot s) : RtOK s := by
  have hempty : ∀ pol, rtCounted s.task pol = ∅ := by
    intro pol
    ext q
    simp [rtCounted, (hboot.tasks q).rtOff]
  have hqueue : ∀ i, s.rtQueue i = [] := by
    intro i
    rw [hboot.rtQueue]
    rfl
  refine ⟨?_, ?_, ?_, ?_, ?_, ?_, ?_, ?_⟩
  · intro q i hmem
    have hmem' : q ∈ s.rtQueue i := hmem
    rw [hqueue i] at hmem'
    simp at hmem'
  · intro q
    rw [hinit.onList q]
    simp [Sys.rtRq, hqueue]
  · intro i
    exact iff_of_false (by simp [Sys.rtRq, hinit.bitmap]) (not_not.mpr (hqueue i))
  · rw [hempty]
    exact Set.finite_empty
  · rw [hempty, Set.ncard_empty]
    exact hinit.nrRunning
  · rw [hempty, Set.ncard_empty]
    exact hinit.rrNrRunning
  · rw [show s.rtRq.nrRunning = 0 from hinit.nrRunning, if_pos rfl]
    exact hinit.highestPrio
  · refine iff_of_false (by simp [Sys.rtRq, hinit.queued]) ?_
    exact fun hnr => hnr.1 hinit.nrRunning

theorem run_rtOK (hboot : Boot s) (hinit : InitRtRq s) {ops : List Op}
    (hrun : Runs.run (step other) s ops = some t) : Inv t ∧ RtOK t :=
  Runs.run_invariant (I := fun s => Inv s ∧ RtOK s)
    (fun _ _ _ h hstep => ⟨step_inv h.1 hstep, step_rtOK h.1 h.2 hstep⟩) ops s t
    ⟨hboot.inv, hinit.rtOK hboot⟩ hrun

/-! ### What the fields are -/

/-- The fields of `struct rt_rq`, in terms of the tasks alone. -/
structure RtExact (s : Sys X) : Prop where
  range : ∀ q ∈ queuedOf s .rt, ∃ i : Fin 100, (s.task q).prio = i.val
  /-- A list holds the queued tasks of its priority. -/
  lists : ∀ q i, q ∈ s.rtQueue i ↔ q ∈ queuedOf s .rt ∧ (s.task q).prio = i.val
  once : ∀ q, Levels.count s.rtQueue q ≤ 1
  onList : ∀ q, (s.task q).rt.onList = true ↔ q ∈ queuedOf s .rt
  bitmap : ∀ i, s.rtBitmap i = true ↔ ∃ q ∈ queuedOf s .rt, (s.task q).prio = i.val
  nrRunning : s.rtNrRunning = (queuedOf s .rt).ncard
  rrNrRunning : s.rrNrRunning = {q ∈ queuedOf s .rt | (s.task q).policy = .rr}.ncard
  /-- The best priority is the least of the priorities, and 100 if there are none. -/
  highest : IsLeast (insert maxRtPrio ((fun q => (s.task q).prio) '' queuedOf s .rt)) s.rtHighestPrio
  queued : s.rtQueued = true ↔ (queuedOf s .rt).Nonempty ∧ s.rtThrottled = false

theorem RtOK.mem_iff (h : RtOK s) (hl : LinkedOnRq s) (q : TaskId) (i : Fin 100) :
    q ∈ s.rtQueue i ↔ q ∈ queuedOf s .rt ∧ (s.task q).prio = i.val := by
  constructor
  · intro hmem
    exact ⟨hl.mem_rt hmem, rtLevel?_val (h.place q i hmem)⟩
  · intro hq
    have hi : rtLevel? (s.task q).prio = some i := by
      unfold rtLevel?
      rw [hq.2, dif_pos (by omega)]
      simp
    exact h.onItsList hl q ((hl.rtOn q).mpr hq.1) i hi

/-- The entities counted are the queued tasks of the class. -/
theorem rtCounted_eq (hl : LinkedOnRq s) (pol : Policy → Bool) :
    rtCounted s.task pol = {q ∈ queuedOf s .rt | pol (s.task q).policy = true} := by
  ext q
  simp only [rtCounted, Set.mem_ofPred_eq, hl.rtOn q]
  rfl

theorem RtOK.exact (h : RtOK s) (hl : LinkedOnRq s) : RtExact s := by
  have hcounted : (rtCounted s.task fun _ => true) = queuedOf s .rt := by
    rw [rtCounted_eq hl]
    simp
  have hfin : (queuedOf s .rt).Finite := by
    rw [← hcounted]
    exact h.finite
  have hnr : s.rtNrRunning = (queuedOf s .rt).ncard := by
    rw [← hcounted]
    exact h.nr
  have hlevel : ∀ q ∈ queuedOf s .rt, ∃ i : Fin 100, (s.task q).prio = i.val := by
    intro q hq
    obtain ⟨i, hi⟩ := hl.rt_level hq.2
    exact ⟨i, rtLevel?_val hi⟩
  have hbits : ∀ i, s.rtBitmap i = true ↔ ∃ q ∈ queuedOf s .rt, (s.task q).prio = i.val := by
    intro i
    refine (h.bits i).trans ⟨?_, ?_⟩
    · intro hne
      obtain ⟨q, hq⟩ := List.exists_mem_of_ne_nil _ hne
      exact ⟨q, (h.mem_iff hl q i).mp hq⟩
    · rintro ⟨q, hq⟩
      exact List.ne_nil_of_mem ((h.mem_iff hl q i).mpr hq)
  refine ⟨hlevel, h.mem_iff hl, ?_, ?_, hbits, hnr, ?_, ?_, ?_⟩
  · intro q
    rw [hl.rt q]
    split <;> omega
  · intro q
    refine (h.onList q).trans ⟨?_, ?_⟩
    · rintro ⟨i, hi⟩
      exact hl.mem_rt hi
    · intro hq
      obtain ⟨i, hi⟩ := hlevel q hq
      exact ⟨i, (h.mem_iff hl q i).mpr ⟨hq, hi⟩⟩
  · refine h.rr.trans ?_
    rw [rtCounted_eq hl]
    simp
  · -- The first bit is somebody's priority, and nobody's is before it.
    rw [h.highest_eq hl]
    refine ⟨?_, ?_⟩
    · rcases schedFindFirstBit_cases s.rtBitmap with ⟨i, hi, hset, -⟩ | ⟨hmax, -⟩
      · rw [hi]
        obtain ⟨q, hq, hprio⟩ := (hbits i).mp hset
        exact Or.inr ⟨q, hq, hprio⟩
      · exact Or.inl hmax
    · rintro prio (rfl | ⟨q, hq, rfl⟩)
      · rcases schedFindFirstBit_cases s.rtBitmap with ⟨i, hi, -, -⟩ | ⟨hmax, -⟩
        · rw [hi]
          have hlt := i.isLt
          unfold maxRtPrio
          omega
        · exact le_of_eq hmax
      · obtain ⟨i, hi⟩ := hlevel q hq
        simp only [hi]
        exact schedFindFirstBit_le ((hbits i).mpr ⟨q, hq, hi⟩)
  · refine h.queued.trans ?_
    show s.rtNrRunning ≠ 0 ∧ s.rtThrottled = false ↔ _
    rw [hnr, Ne, Set.ncard_eq_zero hfin, Set.nonempty_iff_ne_empty]

/--
**The real-time runqueue.**  Whatever has happened, the lists, the bitmap, the two
counters, the best priority and the marks are what the queued real-time tasks make them.
Only whether they are on the runqueue also depends on the CPU being throttled.
-/
theorem rtRq_exact (hboot : Boot s) (hinit : InitRtRq s) {ops : List Op}
    (hrun : Runs.run (step other) s ops = some t) : RtExact t := by
  obtain ⟨hinv, hr⟩ := run_rtOK hboot hinit hrun
  exact hr.exact hinv.linked

/-- A round-robin and a first-in first-out task of the same priority. -/
def twoRtTasks : List Op :=
  [.schedFork 2, .wakeUpNewTask 2, .setPolicy 1 2 50, .setPolicy 2 1 50, .schedulerTick]

theorem bootSys_initRtRq : InitRtRq bootSys where
  bitmap _ := rfl
  nrRunning := rfl
  rrNrRunning := rfl
  queued := rfl
  highestPrio := rfl
  onList q := by
    refine bootSys_task q (fun t => t.rt.onList = false) ?_ ?_ ?_ <;> rfl

/-- The tick throttles them if they have used up their time; they stay on their list. -/
theorem rtRq_exact_twoRtTasks :
    (∃ t, Runs.run (step queueFair) bootSys twoRtTasks = some t ∧ t.rtQueue 49 = [1, 2] ∧
      t.rtNrRunning = 2 ∧ t.rrNrRunning = 1 ∧ t.rtHighestPrio = 49 ∧ t.rtQueued = true ∧
      RtExact t) ∧
    ∃ t, Runs.run (step tightFair) bootSys twoRtTasks = some t ∧ t.rtQueue 49 = [1, 2] ∧
      t.rtNrRunning = 2 ∧ t.rtThrottled = true ∧ t.rtQueued = false ∧ RtExact t := by
  have hfair : Runs.run (step queueFair) bootSys twoRtTasks = some _ := rfl
  have htight : Runs.run (step tightFair) bootSys twoRtTasks = some _ := rfl
  refine ⟨⟨_, hfair, ?_, ?_, ?_, ?_, ?_, rtRq_exact bootSys_boot bootSys_initRtRq hfair⟩,
    ⟨_, htight, ?_, ?_, ?_, ?_, rtRq_exact bootSys_boot bootSys_initRtRq htight⟩⟩ <;>
    decide +kernel

/-! ### Who is picked -/

/-- Nobody of the class is better than `q`, and nobody as good has been waiting longer. -/
def FirstRt (s : Sys X) (q : TaskId) : Prop :=
  q ∈ queuedOf s .rt ∧ ∀ r ∈ queuedOf s .rt, r ≠ q →
    (s.task q).prio < (s.task r).prio ∨
      ((s.task q).prio = (s.task r).prio ∧ ∃ i, Levels.Before (s.rtQueue i) q r)

/-- Who is first is a matter of the tasks and the lists. -/
theorem FirstRt.of_quiet (h : Quiet s s') {q : TaskId} (hq : FirstRt s' q) : FirstRt s q := by
  unfold FirstRt queuedOf at hq ⊢
  rw [h.task, h.rtQueue] at hq
  exact hq

theorem RtExact.firstRt_of_pick (h : RtExact s) {q : TaskId} (hpick : pickNextRtEntity s = some q) :
    FirstRt s q := by
  unfold pickNextRtEntity at hpick
  split at hpick
  · simp at hpick
  · rename_i i hi
    have hq := (h.lists q i).mp (List.mem_of_mem_head? hpick)
    refine ⟨hq.1, ?_⟩
    intro r hr hne
    have hfirst := rtLevel?_val hi
    obtain ⟨j, hj⟩ := h.range r hr
    have hle := schedFindFirstBit_le ((h.bitmap j).mpr ⟨r, hr, hj⟩)
    by_cases heq : j = i
    · subst heq
      have hmem := (h.lists r j).mpr ⟨hr, hj⟩
      refine Or.inr ⟨by omega, j, ?_⟩
      obtain ⟨l, hl⟩ := List.head?_eq_some_iff.mp hpick
      rw [hl] at hmem ⊢
      exact (List.singleton_sublist.mpr ((List.mem_cons.mp hmem).resolve_left hne)).cons_cons q
    · left
      have hne' : j.val ≠ i.val := fun hval => heq (Fin.ext hval)
      omega

/-- With a task of the class queued the search finds a list, and somebody is on it. -/
theorem RtExact.pick_isSome (h : RtExact s) (hq : (queuedOf s .rt).Nonempty) :
    ∃ q, pickNextRtEntity s = some q := by
  obtain ⟨r, hr⟩ := hq
  obtain ⟨j, hj⟩ := h.range r hr
  have hset := (h.bitmap j).mpr ⟨r, hr, hj⟩
  rcases schedFindFirstBit_cases s.rtBitmap with ⟨i, hi, hbit, -⟩ | ⟨-, hnone⟩
  · obtain ⟨q, hqi⟩ := (h.bitmap i).mp hbit
    have hmem := (h.lists q i).mpr hqi
    have hlevel : rtLevel? (schedFindFirstBit s.rtBitmap) = some i := by
      unfold rtLevel?
      rw [hi, dif_pos (by omega)]
      simp
    unfold pickNextRtEntity
    rw [hlevel]
    exact ⟨_, List.head?_eq_some_head (List.ne_nil_of_mem hmem)⟩
  · rw [hnone j] at hset
    simp at hset

/-- With nobody queued or the CPU throttled nobody is found, and else the first task is. -/
theorem RtOK.firstRt_of_pick (hr : RtOK s) (hl : LinkedOnRq s) (prev : TaskId) :
    ((pickNextTaskRt other s prev).1 = none ↔
        queuedOf s .rt = ∅ ∨ (pickNextTaskRt other s prev).2.rtThrottled = true) ∧
      ∀ q, (pickNextTaskRt other s prev).1 = some q → FirstRt s q := by
  have hquiet := (pickNextTaskRt_timed other s prev).toQuiet
  have hl' : LinkedOnRq (pickNextTaskRt other s prev).2 :=
    (hl.of_quiet hquiet).onRq fun q => by rw [hquiet.task]
  have h := (pickNextTaskRt_rtOK hr prev).exact hl'
  have hqueued : queuedOf (pickNextTaskRt other s prev).2 .rt = queuedOf s .rt := by
    unfold queuedOf
    rw [hquiet.task]
  have heq : (pickNextTaskRt other s prev).1
      = if !(pickNextTaskRt other s prev).2.rtQueued then none
        else pickNextRtEntity (pickNextTaskRt other s prev).2 := rfl
  rw [heq]
  generalize (pickNextTaskRt other s prev).2 = u at hquiet h hqueued
  cases hq : u.rtQueued with
  | true =>
      obtain ⟨hne, hthr⟩ := h.queued.mp hq
      obtain ⟨r, hpick⟩ := h.pick_isSome hne
      rw [hqueued] at hne
      refine ⟨iff_of_false (by simp [hpick]) ?_, ?_⟩
      · rintro (hempty | hthr')
        · exact hne.ne_empty hempty
        · rw [hthr] at hthr'
          simp at hthr'
      · intro q hsome
        exact (h.firstRt_of_pick hsome).of_quiet hquiet
  | false =>
      refine ⟨iff_of_true rfl ?_, by simp⟩
      by_contra hor
      rw [not_or, ← hqueued, ← Ne, ← Set.nonempty_iff_ne_empty, Bool.not_eq_true] at hor
      rw [h.queued.mpr hor] at hq
      simp at hq

/--
**The real-time class answers with its first task.**  In every state a run reaches and for
every previous task, `pick_next_task_rt` finds nobody exactly when nobody is queued or the
CPU is throttled, be it that it just used up its time; and whoever it finds is not behind
anyone: the others have a worse priority or wait behind it.
-/
theorem pickNextTaskRt_first (hboot : Boot s) (hinit : InitRtRq s) {ops : List Op}
    (hrun : Runs.run (step other) s ops = some t) (prev : TaskId) :
    ((pickNextTaskRt other t prev).1 = none ↔
        queuedOf t .rt = ∅ ∨ (pickNextTaskRt other t prev).2.rtThrottled = true) ∧
      ∀ q, (pickNextTaskRt other t prev).1 = some q → FirstRt t q := by
  obtain ⟨hinv, hr⟩ := run_rtOK hboot hinit hrun
  exact hr.firstRt_of_pick hinv.linked prev

/-- The first of two is found; and where their time is used up, neither of them is. -/
theorem pickNextTaskRt_first_twoRtTasks :
    (∃ t, Runs.run (step queueFair) bootSys twoRtTasks = some t ∧
      (pickNextTaskRt queueFair t 1).1 = some 1 ∧ FirstRt t 1) ∧
    ∃ t, Runs.run (step tightFair) bootSys
        [.schedFork 2, .wakeUpNewTask 2, .setPolicy 1 2 50, .setPolicy 2 1 50] = some t ∧
      1 ∈ queuedOf t .rt ∧ (pickNextTaskRt tightFair t 1).1 = none := by
  refine ⟨?_, ?_⟩
  · have hrun : Runs.run (step queueFair) bootSys twoRtTasks = some _ := rfl
    have hpick := pickNextTaskRt_first bootSys_boot bootSys_initRtRq hrun 1
    exact ⟨_, hrun, by decide +kernel, hpick.2 1 (by decide +kernel)⟩
  · have hrun : Runs.run (step tightFair) bootSys
      [.schedFork 2, .wakeUpNewTask 2, .setPolicy 1 2 50, .setPolicy 2 1 50] = some _ := rfl
    have hpick := pickNextTaskRt_first bootSys_boot bootSys_initRtRq hrun 1
    exact ⟨_, hrun, ⟨by decide +kernel, by decide +kernel⟩,
      hpick.1.mpr (Or.inr (by decide +kernel))⟩

end Sched
