/-
Is every time-sharing task on the list of its priority?

All the code that changes the priority of a task of the class takes it off its
list first or moves it to the right list afterwards, with one exception.
`enqueue_task_ts` computes the list before it gives a waking task its new
priority, so a task that wakes is linked where it belonged before it slept.  Only
at priority 100, which a wakeup leaves as it is, do the two agree.

So the lists are right all along a run exactly when every wakeup of the run finds
its task at priority 100 (`placed_iff`).
-/
import KernelProgramming.Proofs.Sched.Reachable

namespace Sched

variable {X : Type} {other : OtherClasses X} {s s' t : Sys X} {p : TaskId}

/-- Every queued task of the class is on the list of its priority, and whoever is picked has
the numerically smallest priority of them all. -/
structure Placed (s : Sys X) : Prop where
  level : ∀ q, (s.task q).onRq = true → (s.task q).schedClass = .ts →
    ∃ i, tsLevel? (139 - (s.task q).prio) = some i ∧ q ∈ s.tsQueue i
  pick : ∀ q, pickNextTaskTs s = some q → ∀ r, (s.task r).onRq = true →
    (s.task r).schedClass = .ts → (s.task q).prio ≤ (s.task r).prio

/-- Whoever is on a list has the priority of the list. -/
def AtLevel (s : Sys X) : Prop :=
  ∀ q i, q ∈ s.tsQueue i → tsLevel? (139 - (s.task q).prio) = some i

/-- The task picked comes from the highest list that has anyone on it. -/
theorem AtLevel.pick (h : AtLevel s) {q r : TaskId} (hpick : pickNextTaskTs s = some q)
    {j : Fin 40} (hr : r ∈ s.tsQueue j) : (s.task q).prio ≤ (s.task r).prio := by
  obtain ⟨i, hhead, habove⟩ := Levels.top?_eq_some hpick
  have hq := tsLevel?_val (h q i (List.mem_of_mem_head? hhead))
  have hr' := tsLevel?_val (h r j hr)
  have hle : j ≤ i := by
    by_contra hlt
    rw [habove j (by omega)] at hr
    simp at hr
  have hle' : j.val ≤ i.val := hle
  omega

theorem placed_iff_atLevel (h : Inv s) : Placed s ↔ AtLevel s := by
  constructor
  · intro hp q i hmem
    obtain ⟨hon, hts⟩ := h.linked.mem_ts hmem
    obtain ⟨j, hj, hmem'⟩ := hp.level q hon hts
    have hcount : Levels.count s.tsQueue q ≤ 1 := by
      rw [h.linked.ts q]
      split <;> omega
    rw [Levels.level_unique hcount hmem hmem']
    exact hj
  · intro hp
    refine ⟨?_, ?_⟩
    · intro q hon hts
      obtain ⟨i, hmem⟩ := h.linked.ts_mem hon hts
      exact ⟨i, hp q i hmem, hmem⟩
    · intro q hpick r hon hts
      obtain ⟨j, hmem⟩ := h.linked.ts_mem hon hts
      exact hp.pick hpick hmem

/-! ### What keeps everyone in place -/

/-- The lists and the priorities are all that matters. -/
theorem AtLevel.of_eq (h : AtLevel s) (hqueue : s'.tsQueue = s.tsQueue)
    (hprio : ∀ q, (s'.task q).prio = (s.task q).prio) : AtLevel s' := by
  intro q i hmem
  rw [hqueue] at hmem
  rw [hprio q]
  exact h q i hmem

theorem AtLevel.of_quiet (h : AtLevel s) (hq : Quiet s s') : AtLevel s' :=
  h.of_eq hq.tsQueue fun q => by rw [hq.task]

theorem AtLevel.of_onlyRt (h : AtLevel s) (hrt : OnlyRt p s s') : AtLevel s' :=
  h.of_eq hrt.tsQueue hrt.prio

/-- A task that is on no list may be given any priority. -/
theorem AtLevel.modify (h : AtLevel s) (hp : ∀ i, p ∉ s.tsQueue i)
    (f : TaskStruct → TaskStruct) : AtLevel (s.modify p f) := by
  intro q i hmem
  have hne : q ≠ p := by
    rintro rfl
    exact hp i hmem
  rw [s.modify_task_of_ne f hne]
  exact h q i hmem

theorem AtLevel.modify_iff {f : TaskStruct → TaskStruct}
    (hf : (f (s.task p)).prio = (s.task p).prio) : AtLevel (s.modify p f) ↔ AtLevel s := by
  have hprio : ∀ q, ((s.modify p f).task q).prio = (s.task q).prio := by
    intro q
    by_cases hq : q = p
    · subst hq
      rw [s.modify_task_self]
      exact hf
    · rw [s.modify_task_of_ne f hq]
  exact ⟨fun h => h.of_eq rfl fun q => (hprio q).symm, fun h => h.of_eq rfl hprio⟩

theorem AtLevel.modify_same (h : AtLevel s) {f : TaskStruct → TaskStruct}
    (hf : (f (s.task p)).prio = (s.task p).prio) : AtLevel (s.modify p f) :=
  (AtLevel.modify_iff hf).mpr h

theorem tsListDel_atLevel (h : AtLevel s) (p : TaskId) : AtLevel (tsListDel s p) := by
  intro q i hmem
  exact h q i (Levels.mem_del.mp hmem).1

/-- Linking a task on the list of its priority. -/
theorem tsListAddTail_atLevel (h : AtLevel s) (p : TaskId) :
    AtLevel (tsListAddTail s p (139 - (s.task p).prio)) := by
  unfold tsListAddTail
  split
  · exact h
  · rename_i i hi
    intro q j hmem
    rcases Levels.mem_addTail.mp hmem with hold | ⟨rfl, rfl⟩
    · exact h q j hold
    · exact hi

theorem tsListMoveTail_atLevel (h : AtLevel s) (p : TaskId) :
    AtLevel (tsListMoveTail s p (139 - (s.task p).prio)) :=
  tsListAddTail_atLevel (tsListDel_atLevel h p) p

theorem taskTickTs_atLevel (h : Inv s) (hp : AtLevel s) (hon : (s.task p).onRq = true)
    (hts : (s.task p).schedClass = .ts) : AtLevel (taskTickTs s p) := by
  have hslice := (h.linked.tasks p).slice
  by_cases hone : (s.task p).ts.timeSlice = 1
  · obtain ⟨i, hi⟩ := tsLevel?_of_range (((h.linked.tasks p).expired hts).ts_range hts)
    rw [taskTickTs_expired ((h.linked.tasks p).tsPolicy hts) ((h.linked.tasks p).ts_range hts)
      (h.linked.count_ts hon hts) hone hi]
    intro q j hmem
    rcases Levels.mem_moveTail.mp hmem with ⟨hold, hne⟩ | ⟨rfl, rfl⟩
    · show tsLevel? (139 - ((s.modify p expired).task q).prio) = some j
      rw [s.modify_task_of_ne _ hne]
      exact hp q j hold
    · show tsLevel? (139 - ((s.modify q expired).task q).prio) = some j
      rw [s.modify_task_self]
      exact hi
  · rw [taskTickTs_running ((h.linked.tasks p).tsPolicy hts) (by omega)]
    exact hp.modify_same rfl

/-- Any enqueue but that of a wakeup uses the priority the task has. -/
theorem enqueueTask_atLevel (h : AtLevel s) {flags : QueueFlags}
    (hw : (s.task p).schedClass = .ts → flags.wakeup = false) :
    AtLevel (enqueueTask other s p flags) := by
  unfold enqueueTask
  split
  · rename_i hts
    unfold enqueueTaskTs
    simp only [hw hts, Bool.false_eq_true, if_false]
    exact tsListAddTail_atLevel h p
  · exact h.of_onlyRt (enqueueTaskRt_onlyRt s p flags)
  · exact h.of_quiet (callOther_quiet other s _ _)

theorem dequeueTask_atLevel (h : AtLevel s) (flags : QueueFlags) :
    AtLevel (dequeueTask other s p flags) := by
  unfold dequeueTask
  split
  · exact tsListDel_atLevel h p
  · exact (h.of_quiet (updateCurrRt_timed other s).toQuiet).of_onlyRt
      (dequeueRtEntity_onlyRt _ p flags)
  · exact h.of_quiet (callOther_quiet other s _ _)

theorem takeOff_atLevel (h : AtLevel s) (flags : QueueFlags) :
    AtLevel (takeOff other s p flags) := by
  have hdeq : AtLevel (if (s.task p).onRq then dequeueTask other s p flags else s) := by
    split
    · exact dequeueTask_atLevel h flags
    · exact h
  unfold takeOff
  simp only
  split
  · exact hdeq.of_quiet (putPrevTask_quiet other _ p)
  · exact hdeq

/-- A task that has been taken off is on no list. -/
theorem takeOff_unlinked (h : Inv s) (flags : QueueFlags) (i : Fin 40) :
    p ∉ (takeOff other s p flags).tsQueue i := by
  have hl := (takeOff_linked (p := p) other h.linked rfl flags).ts p
  rw [if_neg (by simp)] at hl
  exact Levels.count_eq_zero.mp hl i

/-- Take a task off its list, give it any priority, put it back. -/
theorem putBack_atLevel (h : Inv s) (hp : AtLevel s) {f : TaskStruct → TaskStruct}
    {flags flags' : QueueFlags} {u : Sys X} (hu : Quiet ((takeOff other s p flags).modify p f) u)
    (hw : flags'.wakeup = false) (queued : Bool) :
    AtLevel (enqueueIf other u p queued flags') := by
  have hu' := ((takeOff_atLevel (p := p) hp flags).modify (takeOff_unlinked h flags) f).of_quiet hu
  unfold enqueueIf
  split
  · exact enqueueTask_atLevel hu' fun _ => hw
  · exact hu'

theorem schedule_atLevel (h : Inv s) (hp : AtLevel s) (preempt signalPending : Bool) :
    AtLevel (schedule other s preempt signalPending) := by
  have hprev : AtLevel (deactivatePrev other s preempt signalPending) := by
    unfold deactivatePrev
    split
    · split
      · exact hp.modify_same rfl
      · exact (dequeueTask_atLevel hp _).modify_same rfl
    · exact hp
  obtain ⟨next, v, hquiet, -, heq⟩ := schedule_eq other h preempt signalPending
  rw [heq]
  exact hprev.of_eq hquiet.tsQueue fun q => congrArg (fun task => (task q).prio) hquiet.task

theorem schedulerTick_atLevel (h : Inv s) (hp : AtLevel s) : AtLevel (schedulerTick other s) := by
  unfold schedulerTick taskTick
  split
  · rename_i hts
    exact taskTickTs_atLevel h hp h.curr hts
  · rename_i hrt
    exact hp.of_eq (taskTickRt_tsQueue other s s.curr) (taskTickRt_prio other s s.curr)
  · exact hp.of_quiet (callOther_quiet other s _ _)

theorem yieldTask_atLevel (hp : AtLevel s) : AtLevel (yieldTask other s) := by
  unfold yieldTask
  split
  · exact tsListMoveTail_atLevel hp s.curr
  · exact hp.of_onlyRt (requeueTaskRt_onlyRt s s.curr)
  · exact hp.of_quiet (callOther_quiet other s _ _)

theorem schedFork_atLevel (h : Inv s) (hp : AtLevel s) {child : TaskId}
    (hoff : (s.task child).onRq = false) : AtLevel (schedFork other s child).2 := by
  have hlinks : ∀ i, child ∉ s.tsQueue i := by
    intro i hmem
    have hon := (h.linked.mem_ts hmem).1
    rw [hoff] at hon
    simp at hon
  have hnew := fun t => hp.modify hlinks fun _ => t
  unfold schedFork
  simp only
  split
  · exact hp
  · split
    · exact hnew _
    · exact hnew _
    · exact (hnew _).of_quiet (callOther_quiet other _ _ _)

theorem setUserNice_atLevel (h : Inv s) (hp : AtLevel s) (nice : Int) :
    AtLevel (setUserNice other s p nice) := by
  rcases setUserNice_cases other s p nice with ⟨-, heq⟩ | ⟨-, ⟨-, heq⟩ | ⟨-, -, u, hu, hback⟩⟩
  · rw [heq]
    exact hp
  · rw [heq]
    exact hp.modify_same rfl
  · exact (putBack_atLevel h hp hu rfl _).of_quiet hback

theorem doSetCpusAllowed_atLevel (hp : AtLevel s) : AtLevel (doSetCpusAllowed other s p) := by
  have hput : AtLevel (enqueueIf other (takeOff other s p { restore := true, noclock := true }) p
      (s.task p).onRq { restore := true, noclock := true }) := by
    unfold enqueueIf
    split
    · exact enqueueTask_atLevel (takeOff_atLevel hp _) fun _ => rfl
    · exact takeOff_atLevel hp _
  exact hput.of_quiet (setCurrIf_quiet other _ p _)

theorem setschedulerChange_atLevel (h : Inv s) (hp : AtLevel s) (attr : SchedAttr)
    (policy : Policy) (resetFork pi : Bool) :
    AtLevel (setschedulerChange other s p attr policy resetFork pi) := by
  have h1 := h.setResetOnFork (p := p) resetFork
  have hp1 : AtLevel (s.modify p fun t => { t with schedResetOnFork := resetFork }) :=
    hp.modify_same rfl
  unfold setschedulerChange
  simp only
  generalize s.modify p (fun t => { t with schedResetOnFork := resetFork }) = s₁ at h1 hp1
  refine AtLevel.of_quiet ?_ (checkClassChanged_quiet other _ p _ _)
  refine AtLevel.of_quiet ?_ (setCurrIf_quiet other _ p _)
  exact putBack_atLevel h1 hp1 (setscheduler_quiet other attr policy pi) rfl _

theorem schedSetscheduler_atLevel (h : Inv s) (hp : AtLevel s) (env : SetschedulerEnv)
    (attr : SchedAttr) (user pi : Bool) :
    AtLevel (schedSetscheduler other env s p attr user pi).2 := by
  have hflag : ∀ resetFork, AtLevel (s.modify p fun t => { t with schedResetOnFork := resetFork }) :=
    fun _ => hp.modify_same rfl
  unfold schedSetscheduler
  simp only
  split
  · exact hp
  · split
    · exact hp
    · exact hflag _
    · exact setschedulerChange_atLevel h hp attr _ _ pi

theorem rtMutexSetprio_atLevel (h : Inv s) (hp : AtLevel s) (piTask : Option TaskId) :
    AtLevel (rtMutexSetprio other s p piTask) := by
  have hdonor : AtLevel (withDonor s p piTask) := hp.modify_same rfl
  rcases rtMutexSetprio_cases other s p piTask rfl with ⟨-, heq | heq⟩ |
    ⟨-, -, flags, flags', -, -, hw, hquiet⟩
  · rw [heq]
    exact hp
  · rw [heq]
    exact hdonor
  · exact (putBack_atLevel (h.setDonor piTask) hdonor (Quiet.refl _) hw _).of_quiet hquiet

/-! ### Waking up -/

/-- Priority 100 is the only one that a wakeup leaves as it is. -/
theorem getNewPrio_sleep_eq_self {prio : Int} (h : 100 ≤ prio ∧ prio ≤ 139) :
    (getNewPrio prio .sleep).1 = prio ↔ prio = 100 := by
  have hidx : ¬(139 - prio < 0 ∨ 139 - prio > 39) := by omega
  unfold getNewPrio
  simp only [if_neg hidx]
  repeat' split
  all_goals omega

/-- The wakeup of a task of the class that has been off the runqueue. -/
def wakesTs (s : Sys X) (p : TaskId) : Prop :=
  ((s.task p).state = .interruptible ∨ (s.task p).state = .uninterruptible) ∧
    (s.task p).onRq = false ∧ (s.task p).schedClass = .ts

variable (other) in
/-- What `try_to_wake_up` does. -/
theorem tryToWakeUp_cases (s : Sys X) (p : TaskId) (wakeFlags : Nat) :
    (¬wakesTs s p ∧ (tryToWakeUp other s p wakeFlags = s ∨
        tryToWakeUp other s p wakeFlags = ttwuDoWakeup other s p wakeFlags)) ∨
      ((s.task p).onRq = false ∧ (wakesTs s p ↔ (s.task p).schedClass = .ts) ∧
        tryToWakeUp other s p wakeFlags
          = ttwuDoWakeup other (ttwuActivate other s p { wakeup := true, noclock := true }) p
            wakeFlags) := by
  unfold tryToWakeUp
  split
  · rename_i hstate
    refine Or.inl ⟨fun hwake => ?_, Or.inl rfl⟩
    exact hwake.1.elim hstate.1 hstate.2
  · rename_i hstate
    split
    · rename_i hon
      refine Or.inl ⟨fun hwake => ?_, Or.inr rfl⟩
      simp [hwake.2.1] at hon
    · rename_i hoff
      have hoff' : (s.task p).onRq = false := by simpa using hoff
      have hsleep : (s.task p).state = .interruptible ∨ (s.task p).state = .uninterruptible := by
        by_contra hne
        exact hstate (not_or.mp hne)
      exact Or.inr ⟨hoff', ⟨fun hwake => hwake.2.2, fun hts => ⟨hsleep, hoff', hts⟩⟩, rfl⟩

/-- What a wakeup has to find for the lists to stay right. -/
def WakesInPlace (s : Sys X) : Op → Prop
  | .tryToWakeUp p _ => wakesTs s p → (s.task p).prio = 100
  | _ => True

/-- The wakeup links the task on the list of the priority it had. -/
theorem enqueueTaskTs_wakeup_atLevel (h : Inv s) (hp : AtLevel s)
    (hoff : (s.task p).onRq = false) (hts : (s.task p).schedClass = .ts) {flags : QueueFlags}
    (hw : flags.wakeup = true) :
    AtLevel (enqueueTaskTs s p flags) ↔ (s.task p).prio = 100 := by
  have hr := (h.linked.tasks p).ts_range hts
  obtain ⟨i, hi⟩ := tsLevel?_of_range hr
  have hc : Levels.count s.tsQueue p = 0 := by
    rw [h.linked.ts p, if_neg (by simp [hoff])]
  rw [enqueueTaskTs_eq flags hr hi hc, ← getNewPrio_sleep_eq_self hr]
  simp only [hw, if_true]
  constructor
  · intro hlevel
    have hmem : p ∈ Levels.addTail s.tsQueue i p i := Levels.mem_addTail.mpr (Or.inr ⟨rfl, rfl⟩)
    have hnew := hlevel p i hmem
    have hprio : 139 - ((s.modify p fun t =>
        { t with prio := (getNewPrio t.prio .sleep).1 }).task p).prio = 139 - (s.task p).prio :=
      tsLevel?_inj hnew hi
    rw [s.modify_task_self] at hprio
    simp only at hprio
    omega
  · intro hsame q j hmem
    show tsLevel? (139 - ((s.modify p fun t =>
      { t with prio := (getNewPrio t.prio .sleep).1 }).task q).prio) = some j
    by_cases hq : q = p
    · subst hq
      rw [s.modify_task_self]
      simp only [hsame]
      rcases Levels.mem_addTail.mp hmem with hold | ⟨rfl, -⟩
      · exact absurd hold (Levels.count_eq_zero.mp hc j)
      · exact hi
    · rw [s.modify_task_of_ne _ hq]
      rcases Levels.mem_addTail.mp hmem with hold | ⟨-, heq⟩
      · exact hp q j hold
      · exact absurd heq hq

/-- What follows the enqueue changes neither a list nor a priority. -/
theorem ttwuDoWakeup_atLevel (s : Sys X) (p : TaskId) (wakeFlags : Nat) :
    AtLevel (ttwuDoWakeup other s p wakeFlags) ↔ AtLevel s := by
  have hquiet := checkPreemptCurr_quiet other s p wakeFlags
  refine (AtLevel.modify_iff rfl).trans ?_
  exact ⟨fun h => h.of_quiet hquiet.symm, fun h => h.of_quiet hquiet⟩

theorem tryToWakeUp_atLevel (h : Inv s) (hp : AtLevel s) (wakeFlags : Nat) :
    AtLevel (tryToWakeUp other s p wakeFlags) ↔ (wakesTs s p → (s.task p).prio = 100) := by
  rcases tryToWakeUp_cases other s p wakeFlags with ⟨hno, heq | heq⟩ | ⟨hoff, hwakes, heq⟩
  · rw [heq]
    exact iff_of_true hp fun hwake => absurd hwake hno
  · rw [heq, ttwuDoWakeup_atLevel]
    exact iff_of_true hp fun hwake => absurd hwake hno
  · have hactive : AtLevel (ttwuActivate other s p { wakeup := true, noclock := true }) ↔
        AtLevel (enqueueTask other s p { wakeup := true, noclock := true }) :=
      AtLevel.modify_iff rfl
    rw [heq, ttwuDoWakeup_atLevel, hactive, hwakes]
    by_cases hts : (s.task p).schedClass = .ts
    · have henq : enqueueTask other s p { wakeup := true, noclock := true }
          = enqueueTaskTs s p { wakeup := true, noclock := true } := by
        unfold enqueueTask
        rw [hts]
      rw [henq, enqueueTaskTs_wakeup_atLevel h hp hoff hts rfl]
      exact ⟨fun hprio _ => hprio, fun himp => himp hts⟩
    · exact iff_of_true (enqueueTask_atLevel hp fun heq => absurd heq hts) fun heq => absurd heq hts

/-! ### Whole runs -/

/-- One operation keeps the lists right exactly when it does not wake a task of the class at
another priority than 100. -/
theorem step_atLevel {op : Op} (h : Inv s) (hp : AtLevel s) (hstep : step other s op = some s') :
    AtLevel s' ↔ WakesInPlace s op := by
  obtain ⟨hen, rfl⟩ := step_eq_some hstep
  cases op with
  | tryToWakeUp p wakeFlags => exact tryToWakeUp_atLevel h hp wakeFlags
  | schedFork child => exact iff_of_true (schedFork_atLevel h hp hen.2.1) trivial
  | wakeUpNewTask p =>
      have h1 : AtLevel (s.modify p fun t => { t with state := .running }) := hp.modify_same rfl
      have h2 : AtLevel ((enqueueTask other (s.modify p fun t => { t with state := .running }) p
          { noclock := true }).modify p fun t => { t with onRq := true }) :=
        (enqueueTask_atLevel h1 fun _ => rfl).modify_same rfl
      exact iff_of_true (h2.of_quiet (checkPreemptCurr_quiet other _ p 2)) trivial
  | setCurrentState st =>
      exact iff_of_true (hp.modify_same (p := s.curr) (f := fun t => { t with state := st }) rfl)
        trivial
  | schedule preempt signalPending =>
      exact iff_of_true (schedule_atLevel h hp preempt signalPending) trivial
  | doSchedYield signalPending =>
      exact iff_of_true
        (schedule_atLevel (yieldTask_inv other h) (yieldTask_atLevel hp) false signalPending) trivial
  | doTaskDead =>
      have hdead := h.setState (p := s.curr) (show TaskState.dead ≠ .new by simp)
        fun heq => absurd heq hen
      exact iff_of_true (schedule_atLevel hdead (hp.modify_same rfl) false false) trivial
  | schedulerTick => exact iff_of_true (schedulerTick_atLevel h hp) trivial
  | taskSchedRuntime p =>
      exact iff_of_true (hp.of_quiet (taskSchedRuntime_quiet other s p)) trivial
  | doSchedRtPeriodTimer =>
      exact iff_of_true (hp.of_quiet (doSchedRtPeriodTimer_timed other s).toQuiet) trivial
  | setUserNice p nice => exact iff_of_true (setUserNice_atLevel h hp nice) trivial
  | doSetCpusAllowed p => exact iff_of_true (doSetCpusAllowed_atLevel hp) trivial
  | schedSetscheduler p attr env user pi =>
      exact iff_of_true (schedSetscheduler_atLevel h hp env attr user pi) trivial
  | rtMutexSetprio p piTask => exact iff_of_true (rtMutexSetprio_atLevel h hp piTask) trivial

theorem Boot.atLevel (h : Boot s) : AtLevel s := by
  intro q i hmem
  rw [h.tsQueue] at hmem
  simp [initTsRq, Levels.empty] at hmem

/--
**Placement.**  All along a run every task of the class is on the list of its priority,
and the one picked has the smallest priority, exactly when each wakeup of a task of the
class finds it at priority 100.
-/
theorem placed_iff (hboot : Boot s) {ops : List Op}
    (hrun : Runs.run (step other) s ops = some t) :
    Runs.Always (step other) Placed s ops ↔ Runs.EachStep (step other) WakesInPlace s ops := by
  refine Runs.always_iff_eachStep (fun _ _ _ h hstep => step_inv h hstep) ?_ ops s t hboot.inv
    ((placed_iff_atLevel hboot.inv).mpr hboot.atLevel) hrun
  intro s a s' h hp hstep
  rw [placed_iff_atLevel (step_inv h hstep)]
  exact step_atLevel h ((placed_iff_atLevel h).mp hp) hstep

/-- It wakes with priority 108 on the list of priority 120. -/
theorem placed_fails_after_wakeup :
    Boot bootSys ∧ ∃ t, Runs.run (step queueFair) bootSys sleepAndWake = some t ∧ ¬Placed t := by
  refine ⟨bootSys_boot, _, rfl, ?_⟩
  intro hplaced
  obtain ⟨i, hi, hmem⟩ := hplaced.level 1 rfl rfl
  have h31 : tsLevel? (139 - 108) = some (31 : Fin 40) := rfl
  have heq : i = 31 := by
    have : some i = some (31 : Fin 40) := hi.symm.trans h31
    exact Option.some.inj this
  rw [heq] at hmem
  exact absurd hmem (by decide +kernel)

/-- A task of nice -20 goes to sleep, at priority 100. -/
def sleepAtTop : List Op :=
  [.toTs 1, .setUserNice 1 (-20), .setCurrentState .interruptible, .schedule false false]

/-- It wakes where it was. -/
theorem placed_wakeAtTop :
    ∃ t, Runs.run (step queueFair) bootSys (sleepAtTop ++ [.tryToWakeUp 1 0]) = some t ∧
      t.tsQueue 39 = [1] ∧
      Runs.Always (step queueFair) Placed bootSys (sleepAtTop ++ [.tryToWakeUp 1 0]) := by
  have hrun : Runs.run (step queueFair) bootSys (sleepAtTop ++ [.tryToWakeUp 1 0])
      = some _ := rfl
  refine ⟨_, hrun, by decide +kernel, (placed_iff bootSys_boot hrun).mpr ?_⟩
  refine Runs.eachStep_append ⟨trivial, fun _ _ => ⟨trivial, fun _ _ => ⟨trivial, fun _ _ =>
    ⟨trivial, fun _ _ => trivial⟩⟩⟩⟩ rfl ⟨?_, fun _ _ => trivial⟩
  intro _
  decide +kernel

end Sched
