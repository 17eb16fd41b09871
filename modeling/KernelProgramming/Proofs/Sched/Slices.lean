/-
Does a time-sharing task ever hold more ticks than its priority grants?

`task_tick_ts` sets the slice and the priority together.  Everyone else who gives
a task of the class a priority leaves the slice as it is: a wakeup, which makes
the quantum 4 whatever it was; `set_user_nice`; `__setscheduler`, when it brings a
task into the class.  `__sched_fork` sets the slice to 12 without looking at the
priority the child is about to get.

So the slices fit all along a run exactly when every such step happens to find a
slice that is short enough for the new priority (`slicesFit_iff`).
-/
import KernelProgramming.Proofs.Sched.Placement

namespace Sched

variable {X : Type} {other : OtherClasses X} {s s' t : Sys X} {p : TaskId}

/-- A task of the class has no more ticks left than its priority grants. -/
def SliceFits (t : TaskStruct) : Prop :=
  t.schedClass = .ts → t.ts.timeSlice ≤ (getNumTicks t.prio).1

def SlicesFit (s : Sys X) : Prop := ∀ q, SliceFits (s.task q)

/-! ### What leaves every slice and every priority alone -/

/-- No task changes its class, its priority or its slice. -/
structure SameSlices (s s' : Sys X) : Prop where
  schedClass : ∀ q, (s'.task q).schedClass = (s.task q).schedClass
  prio : ∀ q, (s'.task q).prio = (s.task q).prio
  ts : ∀ q, (s'.task q).ts = (s.task q).ts

namespace SameSlices

theorem trans {s'' : Sys X} (h : SameSlices s s') (h' : SameSlices s' s'') : SameSlices s s'' :=
  ⟨fun q => (h'.schedClass q).trans (h.schedClass q), fun q => (h'.prio q).trans (h.prio q),
    fun q => (h'.ts q).trans (h.ts q)⟩

theorem of_task_eq (h : s'.task = s.task) : SameSlices s s' :=
  ⟨fun q => by rw [h], fun q => by rw [h], fun q => by rw [h]⟩

theorem of_quiet (h : Quiet s s') : SameSlices s s' := of_task_eq h.task

theorem of_onlyRt (h : OnlyRt p s s') : SameSlices s s' :=
  ⟨fun q => (h.owns.sameTask q).schedClass, h.prio, h.ts⟩

theorem modify {f : TaskStruct → TaskStruct}
    (hcls : (f (s.task p)).schedClass = (s.task p).schedClass)
    (hprio : (f (s.task p)).prio = (s.task p).prio) (hts : (f (s.task p)).ts = (s.task p).ts) :
    SameSlices s (s.modify p f) := by
  have hself := s.modify_task_self p f
  refine ⟨?_, ?_, ?_⟩ <;> intro q <;> by_cases hq : q = p
  · subst hq
    rw [hself, hcls]
  · rw [s.modify_task_of_ne f hq]
  · subst hq
    rw [hself, hprio]
  · rw [s.modify_task_of_ne f hq]
  · subst hq
    rw [hself, hts]
  · rw [s.modify_task_of_ne f hq]

theorem fit_iff (h : SameSlices s s') : SlicesFit s' ↔ SlicesFit s := by
  have heq : ∀ q, SliceFits (s'.task q) ↔ SliceFits (s.task q) := by
    intro q
    unfold SliceFits
    rw [h.schedClass q, h.prio q, h.ts q]
  exact forall_congr' heq

end SameSlices

theorem tsListAddTail_task (s : Sys X) (p : TaskId) (idx : Int) :
    (tsListAddTail s p idx).task = s.task := by
  unfold tsListAddTail
  split <;> rfl

variable (other) in
/-- Only a wakeup makes `enqueue_task` touch the priority. -/
theorem enqueueTask_sameSlices (s : Sys X) (p : TaskId) (flags : QueueFlags)
    (hw : (s.task p).schedClass = .ts → flags.wakeup = false) :
    SameSlices s (enqueueTask other s p flags) := by
  unfold enqueueTask
  split
  · rename_i hts
    unfold enqueueTaskTs
    simp only [hw hts, Bool.false_eq_true, if_false]
    exact SameSlices.of_task_eq (tsListAddTail_task s p _)
  · exact SameSlices.of_onlyRt (enqueueTaskRt_onlyRt s p flags)
  · exact SameSlices.of_quiet (callOther_quiet other s _ _)

variable (other) in
theorem enqueueIf_sameSlices (s : Sys X) (p : TaskId) (queued : Bool) (flags : QueueFlags)
    (hw : flags.wakeup = false) : SameSlices s (enqueueIf other s p queued flags) := by
  unfold enqueueIf
  split
  · exact enqueueTask_sameSlices other s p flags fun _ => hw
  · exact SameSlices.of_task_eq rfl

variable (other) in
theorem dequeueTask_sameSlices (s : Sys X) (p : TaskId) (flags : QueueFlags) :
    SameSlices s (dequeueTask other s p flags) :=
  ⟨fun q => ((dequeueTask_owns other s p flags).sameTask q).schedClass,
    fun q => (dequeueTask_prio other s p flags q).1,
    fun q => (dequeueTask_prio other s p flags q).2⟩

variable (other) in
theorem takeOff_sameSlices (s : Sys X) (p : TaskId) (flags : QueueFlags) :
    SameSlices s (takeOff other s p flags) :=
  ⟨fun q => ((takeOff_owns other s p flags).sameTask q).schedClass,
    fun q => (takeOff_prio other s p flags q).1, fun q => (takeOff_prio other s p flags q).2⟩

variable (other) in
theorem yieldTask_sameSlices (s : Sys X) : SameSlices s (yieldTask other s) := by
  unfold yieldTask
  split
  · exact SameSlices.of_task_eq (tsListAddTail_task (tsListDel s s.curr) s.curr _)
  · exact SameSlices.of_onlyRt (requeueTaskRt_onlyRt s s.curr)
  · exact SameSlices.of_quiet (callOther_quiet other s _ _)

variable (other) in
theorem schedule_sameSlices (h : Inv s) (preempt signalPending : Bool) :
    SameSlices s (schedule other s preempt signalPending) := by
  have hprev : SameSlices s (deactivatePrev other s preempt signalPending) := by
    unfold deactivatePrev
    split
    · split
      · exact SameSlices.modify rfl rfl rfl
      · exact (dequeueTask_sameSlices other s s.curr _).trans (SameSlices.modify rfl rfl rfl)
    · exact SameSlices.of_task_eq rfl
  obtain ⟨next, v, hquiet, -, heq⟩ := schedule_eq other h preempt signalPending
  have hpick : SameSlices s v := hprev.trans (SameSlices.of_quiet hquiet)
  rw [heq]
  exact hpick.trans (SameSlices.of_task_eq rfl)

/-! ### One task at a time -/

/-- When only `p` is touched, `p` decides. -/
theorem SlicesFit.iff_of_frame (h : SlicesFit s) (hframe : ∀ q, q ≠ p → s'.task q = s.task q) :
    SlicesFit s' ↔ SliceFits (s'.task p) := by
  refine ⟨fun h' => h' p, fun hp q => ?_⟩
  by_cases hq : q = p
  · rw [hq]
    exact hp
  · rw [hframe q hq]
    exact h q

theorem SlicesFit.modify_iff (h : SlicesFit s) (p : TaskId) (f : TaskStruct → TaskStruct) :
    SlicesFit (s.modify p f) ↔ SliceFits (f (s.task p)) := by
  have hframe : ∀ q, q ≠ p → (s.modify p f).task q = s.task q :=
    fun _ hq => s.modify_task_of_ne f hq
  rw [h.iff_of_frame hframe, s.modify_task_self]

/-- Take a task off its list, rewrite it, put it back. -/
theorem putBack_slicesFit (h : SlicesFit s) {f : TaskStruct → TaskStruct}
    {flags : QueueFlags} {u : Sys X} (hu : Quiet ((takeOff other s p flags).modify p f) u)
    (queued : Bool) {flags' : QueueFlags} (hw : flags'.wakeup = false) :
    SlicesFit (enqueueIf other u p queued flags') ↔
      SliceFits (f ((takeOff other s p flags).task p)) := by
  have hoff : SlicesFit (takeOff other s p flags) :=
    (takeOff_sameSlices other s p flags).fit_iff.mpr h
  have hback : SameSlices ((takeOff other s p flags).modify p f)
      (enqueueIf other u p queued flags') :=
    (SameSlices.of_quiet hu).trans (enqueueIf_sameSlices other u p queued flags' hw)
  exact hback.fit_iff.trans (hoff.modify_iff p f)

/-- The tick renews the slice together with the priority. -/
theorem schedulerTick_slicesFit (h : Inv s) (hfit : SlicesFit s) :
    SlicesFit (schedulerTick other s) := by
  have hown := taskTick_owns other s s.curr
  refine (hfit.iff_of_frame hown.frame).mpr ?_
  by_cases hts : (s.task s.curr).schedClass = .ts
  · have hok := h.linked.tasks s.curr
    have hslice := hok.slice
    have htick : schedulerTick other s = taskTickTs s s.curr := by
      unfold schedulerTick taskTick
      rw [hts]
    show SliceFits ((schedulerTick other s).task s.curr)
    rw [htick]
    by_cases hone : (s.task s.curr).ts.timeSlice = 1
    · obtain ⟨i, hi⟩ := tsLevel?_of_range ((hok.expired hts).ts_range hts)
      rw [taskTickTs_expired (hok.tsPolicy hts) (hok.ts_range hts) (h.linked.count_ts h.curr hts)
        hone hi]
      show SliceFits ((s.modify s.curr expired).task s.curr)
      rw [s.modify_task_self]
      intro _
      exact le_refl _
    · rw [taskTickTs_running (hok.tsPolicy hts) (by omega), s.modify_task_self]
      intro _
      have hold := hfit s.curr hts
      show (s.task s.curr).ts.timeSlice - 1 ≤ (getNumTicks (s.task s.curr).prio).1
      omega
  · intro hcls
    exact absurd (hown.self.schedClass.symm.trans hcls) hts

/-- A boost or its end never leads into the class. -/
theorem rtMutexSetprio_slicesFit (hfit : SlicesFit s) (p : TaskId) (piTask : Option TaskId) :
    SlicesFit (rtMutexSetprio other s p piTask) := by
  have hdonor : SlicesFit (withDonor s p piTask) :=
    (SameSlices.modify rfl rfl rfl).fit_iff.mpr hfit
  rcases rtMutexSetprio_cases other s p piTask rfl with ⟨-, heq | heq⟩ |
    ⟨-, -, flags, flags', -, -, hw, hquiet⟩
  · rw [heq]
    exact hfit
  · rw [heq]
    exact hdonor
  · refine (SameSlices.of_quiet hquiet).fit_iff.mpr ?_
    refine (putBack_slicesFit hdonor (Quiet.refl _) _ hw).mpr ?_
    intro hcls
    exact absurd hcls (piClassOf_ne_ts _)

/-! ### Steps that leave the slice behind -/

/-- The request is granted and brings the task from another policy to `SCHED_TS`. -/
def entersTs (s : Sys X) (p : TaskId) (attr : SchedAttr) (env : SetschedulerEnv) (user : Bool) :
    Prop :=
  requestedPolicy (s.task p) attr = some .ts ∧
    setschedulerCheck env (s.task p) (s.stop = some p) attr .ts
      (if attr.schedPolicy < 0 then (s.task p).schedResetOnFork else attr.flagResetOnFork) user
      = .change

/-- The static priority, or what a donor makes of it. -/
def staticOrBoosted (s : Sys X) (p : TaskId) (pi : Bool) : Int :=
  if pi then rtEffectivePrio s p (s.task p).staticPrio else (s.task p).staticPrio

/-- What a step has to find for the slices to stay in line. -/
def FindsShortSlice (s : Sys X) : Op → Prop
  | .schedFork _ =>
      ¬((s.task s.curr).policy = .ts ∧ (s.task s.curr).schedResetOnFork = false ∧
        100 ≤ (s.task s.curr).normalPrio ∧ (s.task s.curr).normalPrio < 120)
  | .tryToWakeUp p _ => wakesTs s p → (s.task p).ts.timeSlice ≤ 4
  | .setUserNice p nice =>
      (s.task p).schedClass = .ts → taskNice (s.task p) ≠ nice → -20 ≤ nice → nice ≤ 19 →
        (s.task p).ts.timeSlice ≤ (getNumTicks (niceToPrio nice)).1
  | .schedSetscheduler p attr env user pi =>
      entersTs s p attr env user → 100 ≤ staticOrBoosted s p pi →
        (s.task p).ts.timeSlice ≤ (getNumTicks (staticOrBoosted s p pi)).1
  | _ => True

/-- The slice of a new task is that of nice 0 to 9. -/
theorem twelve_le_getNumTicks {prio : Int} (h : 100 ≤ prio ∧ prio ≤ 139) :
    12 ≤ (getNumTicks prio).1 ↔ 120 ≤ prio := by
  unfold getNumTicks
  dsimp only
  repeat' split
  all_goals simp only; omega

/-- Whoever wakes gets one of the ten highest levels, and these have the shortest quantum. -/
theorem getNumTicks_sleep {prio : Int} (h : 100 ≤ prio ∧ prio ≤ 139) :
    (getNumTicks (getNewPrio prio .sleep).1).1 = 4 := by
  have hidx : ¬(139 - prio < 0 ∨ 139 - prio > 39) := by omega
  have hhigh : 30 ≤ 139 - (getNewPrio prio .sleep).1 ∧ 139 - (getNewPrio prio .sleep).1 < 40 := by
    unfold getNewPrio
    simp only [if_neg hidx]
    repeat' split
    all_goals omega
  unfold getNumTicks
  dsimp only
  rw [if_neg (by omega), if_neg (by omega), if_neg (by omega), if_neg (by omega),
    if_pos (by omega)]

/-- A child of the class is short of its twelve ticks only below priority 120. -/
theorem forkedTask_sliceFits {t : TaskStruct} (h : TaskOK t) :
    SliceFits { forkedTask other t with
        schedClass := classOf (forkedTask other t).prio (forkedTask other t).policy } ↔
      ¬(t.policy = .ts ∧ t.schedResetOnFork = false ∧ 100 ≤ t.normalPrio ∧ t.normalPrio < 120) := by
  have hstatic := h.static
  have hnormal := h.normal.2.1
  by_cases hres : t.schedResetOnFork = true
  · -- Whoever resets on fork has a child of nice 0 at least.
    refine iff_of_true ?_ (by simp [hres])
    intro hcls
    have hpol := classOf_ts hcls
    show (forkedTask other t).ts.timeSlice ≤ (getNumTicks (forkedTask other t).prio).1
    have hkind : ¬(t.policy.dlPolicy = true ∨ t.policy.rtPolicy = true) := by
      intro hkind
      unfold forkedTask resetOnFork schedForkBasic at hpol
      simp [hres, hkind] at hpol
    have hslice : (forkedTask other t).ts.timeSlice = 12 := by
      unfold forkedTask resetOnFork schedForkBasic
      simp only [hres, Bool.not_true, Bool.false_eq_true, if_false, if_neg hkind]
      split <;> rfl
    have hprio : 120 ≤ (forkedTask other t).prio ∧ (forkedTask other t).prio ≤ 139 := by
      unfold forkedTask resetOnFork schedForkBasic
      simp only [hres, Bool.not_true, Bool.false_eq_true, if_false, if_neg hkind]
      split
      · simp [niceToPrio]
      · rename_i hnice
        unfold prioToNice at hnice
        simp only at hnice ⊢
        omega
    rw [hslice]
    exact (twelve_le_getNumTicks ⟨by omega, hprio.2⟩).mpr hprio.1
  · have hfalse : t.schedResetOnFork = false := by simpa using hres
    have hcopy : (forkedTask other t).prio = t.normalPrio ∧ (forkedTask other t).policy = t.policy ∧
        (forkedTask other t).ts.timeSlice = 12 := by
      unfold forkedTask resetOnFork schedForkBasic
      simp [hfalse]
    obtain ⟨hprio, hpolicy, hslice⟩ := hcopy
    show (classOf (forkedTask other t).prio (forkedTask other t).policy = .ts →
      (forkedTask other t).ts.timeSlice ≤ (getNumTicks (forkedTask other t).prio).1) ↔ _
    rw [hprio, hpolicy, hslice]
    constructor
    · rintro himp ⟨hts, -, h100, hlt⟩
      have hcls : classOf t.normalPrio t.policy = .ts := by
        unfold classOf
        rw [hts, if_neg (by simpa using h100)]
        rfl
      have := (twelve_le_getNumTicks ⟨h100, hnormal⟩).mp (himp hcls)
      omega
    · intro hnot hcls
      have hts := classOf_ts hcls
      have h100 : 100 ≤ t.normalPrio := by
        by_contra hlt
        unfold classOf at hcls
        rw [if_pos (by simp; omega)] at hcls
        simp at hcls
      refine (twelve_le_getNumTicks ⟨h100, hnormal⟩).mpr ?_
      by_contra hlt
      exact hnot ⟨hts, hfalse, h100, by omega⟩

theorem schedFork_slicesFit (h : Inv s) (hfit : SlicesFit s) (child : TaskId) :
    SlicesFit (schedFork other s child).2 ↔ FindsShortSlice s (.schedFork child) := by
  have hok := h.linked.tasks s.curr
  have hnew : SlicesFit (s.modify child fun _ => { forkedTask other (s.task s.curr) with
        schedClass := classOf (forkedTask other (s.task s.curr)).prio
          (forkedTask other (s.task s.curr)).policy }) ↔ FindsShortSlice s (.schedFork child) :=
    (hfit.modify_iff child _).trans (forkedTask_sliceFits hok)
  unfold schedFork
  simp only
  split
  · -- There is no child of a deadline task.
    rename_i hdl
    refine iff_of_true hfit ?_
    rintro ⟨-, hres, h100, -⟩
    have hprio : (forkedTask other (s.task s.curr)).prio = (s.task s.curr).normalPrio := by
      unfold forkedTask resetOnFork schedForkBasic
      simp [hres]
    rw [hprio, dlPrio_eq_true] at hdl
    omega
  · split
    · exact hnew
    · exact hnew
    · exact (SameSlices.of_quiet (callOther_quiet other _ _ _)).fit_iff.trans hnew

/-- The wakeup gives a quantum of 4 and leaves the slice as it is. -/
theorem enqueueTaskTs_wakeup_slicesFit (h : Inv s) (hfit : SlicesFit s)
    (hoff : (s.task p).onRq = false) (hts : (s.task p).schedClass = .ts) {flags : QueueFlags}
    (hw : flags.wakeup = true) :
    SlicesFit (enqueueTaskTs s p flags) ↔ (s.task p).ts.timeSlice ≤ 4 := by
  have hr := (h.linked.tasks p).ts_range hts
  obtain ⟨i, hi⟩ := tsLevel?_of_range hr
  have hc : Levels.count s.tsQueue p = 0 := by
    rw [h.linked.ts p, if_neg (by simp [hoff])]
  rw [enqueueTaskTs_eq flags hr hi hc]
  simp only [hw, if_true]
  have hwoken := hfit.modify_iff p fun t => { t with prio := (getNewPrio t.prio .sleep).1 }
  refine (SameSlices.of_task_eq rfl).fit_iff.trans (hwoken.trans ?_)
  show (_ → (s.task p).ts.timeSlice ≤ (getNumTicks (getNewPrio (s.task p).prio .sleep).1).1) ↔ _
  rw [getNumTicks_sleep hr]
  exact ⟨fun himp => himp hts, fun hle _ => hle⟩

theorem tryToWakeUp_slicesFit (h : Inv s) (hfit : SlicesFit s) (wakeFlags : Nat) :
    SlicesFit (tryToWakeUp other s p wakeFlags) ↔
      FindsShortSlice s (.tryToWakeUp p wakeFlags) := by
  show _ ↔ (wakesTs s p → (s.task p).ts.timeSlice ≤ 4)
  have hafter : ∀ u : Sys X, SameSlices u (ttwuDoWakeup other u p wakeFlags) := fun u =>
    (SameSlices.of_quiet (checkPreemptCurr_quiet other u p wakeFlags)).trans
      (SameSlices.modify rfl rfl rfl)
  rcases tryToWakeUp_cases other s p wakeFlags with ⟨hno, heq | heq⟩ | ⟨hoff, hwakes, heq⟩
  · rw [heq]
    exact iff_of_true hfit fun hwake => absurd hwake hno
  · rw [heq]
    exact iff_of_true ((hafter s).fit_iff.mpr hfit) fun hwake => absurd hwake hno
  · have hactive : SameSlices (enqueueTask other s p { wakeup := true, noclock := true })
        (ttwuActivate other s p { wakeup := true, noclock := true }) :=
      SameSlices.modify rfl rfl rfl
    rw [heq, (hactive.trans (hafter _)).fit_iff, hwakes]
    by_cases hts : (s.task p).schedClass = .ts
    · have henq : enqueueTask other s p { wakeup := true, noclock := true }
          = enqueueTaskTs s p { wakeup := true, noclock := true } := by
        unfold enqueueTask
        rw [hts]
      rw [henq, enqueueTaskTs_wakeup_slicesFit h hfit hoff hts rfl]
      exact ⟨fun hle _ => hle, fun himp => himp hts⟩
    · have hsame := enqueueTask_sameSlices other s p { wakeup := true, noclock := true }
        fun heq => absurd heq hts
      exact iff_of_true (hsame.fit_iff.mpr hfit) fun heq => absurd heq hts

/-- A renice gives a task of the class the priority of its nice value. -/
theorem effectivePrio_sliceFits {t : TaskStruct} (h : TaskOK t) (nice : Int) :
    SliceFits (effectivePrio { t with staticPrio := niceToPrio nice }) ↔
      (t.schedClass = .ts → t.ts.timeSlice ≤ (getNumTicks (niceToPrio nice)).1) := by
  refine forall_congr' fun hts => ?_
  have hcls : t.schedClass = .ts := hts
  have hprio : (effectivePrio { t with staticPrio := niceToPrio nice }).prio = niceToPrio nice := by
    have hrange := h.ts_range hcls
    have hpol := h.tsPolicy hcls
    have hrt : rtPrio t.prio = false := rtPrio_eq_false.mpr hrange.1
    simp [effectivePrio, hrt, normalPrio, hpol, Policy.dlPolicy, Policy.rtPolicy]
  rw [hprio]
  exact Iff.rfl

theorem setUserNice_slicesFit (h : Inv s) (hfit : SlicesFit s) (nice : Int) :
    SlicesFit (setUserNice other s p nice) ↔ FindsShortSlice s (.setUserNice p nice) := by
  show _ ↔ ((s.task p).schedClass = .ts → taskNice (s.task p) ≠ nice → -20 ≤ nice → nice ≤ 19 →
    (s.task p).ts.timeSlice ≤ (getNumTicks (niceToPrio nice)).1)
  rcases setUserNice_cases other s p nice with ⟨hsame, heq⟩ | ⟨⟨hne, hlo, hhi⟩, ⟨hpol, heq⟩ |
    ⟨-, -, u, hu, hback⟩⟩
  · rw [heq]
    refine iff_of_true hfit ?_
    intro _ hne hlo hhi
    rcases hsame with heq | hlow | hhigh
    · exact absurd heq hne
    · omega
    · omega
  · -- Only the static priority of a task of another policy is stored.
    rw [heq]
    refine iff_of_true ((SameSlices.modify rfl rfl rfl).fit_iff.mpr hfit) ?_
    intro hts
    rw [(h.linked.tasks p).tsPolicy hts] at hpol
    simp [Policy.dlPolicy, Policy.rtPolicy] at hpol
  · have hoff := takeOff_sameSlices other s p { restore := true, noclock := true }
    have hw : ({ restore := true, noclock := true } : QueueFlags).wakeup = false := rfl
    have hput := (putBack_slicesFit hfit hu (s.task p).onRq hw).trans
      (effectivePrio_sliceFits (takeOff_taskOK other h _) nice)
    rw [hoff.schedClass p, hoff.ts p] at hput
    rw [(SameSlices.of_quiet hback).fit_iff, hput]
    exact ⟨fun himp hts _ _ _ => himp hts, fun himp hts => himp hts hne hlo hhi⟩

theorem rescheduled_sliceFits (attr : SchedAttr) (policy : Policy) (prio : Int)
    (t : TaskStruct) :
    SliceFits (rescheduled attr policy prio t) ↔
      (policy = .ts → 100 ≤ prio → t.ts.timeSlice ≤ (getNumTicks prio).1) := by
  have hpol := setschedulerParams_policy attr policy t
  have hts := (setschedulerParams_kept attr policy t).1
  have hcls : (rescheduled attr policy prio t).schedClass = .ts ↔ policy = .ts ∧ 100 ≤ prio := by
    unfold rescheduled
    simp only [hpol, classOf, Policy.tsPolicy]
    by_cases h100 : 100 ≤ prio
    · rw [if_neg (by simp; omega), if_neg (by simpa using h100)]
      by_cases hp : policy = .ts <;> simp [hp, h100]
    · simp only [h100, and_false, iff_false]
      split
      · simp
      · rw [if_pos (by simp; omega)]
        simp
  unfold SliceFits
  rw [hcls, and_imp]
  show (_ → _ → (setschedulerParams attr policy t).ts.timeSlice ≤ _) ↔ _
  rw [hts]
  exact Iff.rfl

theorem setschedulerChange_slicesFit (hfit : SlicesFit s) (attr : SchedAttr)
    (policy : Policy) (resetFork pi : Bool) :
    SlicesFit (setschedulerChange other s p attr policy resetFork pi) ↔
      (policy = .ts → 100 ≤ staticOrBoosted s p pi →
        (s.task p).ts.timeSlice ≤ (getNumTicks (staticOrBoosted s p pi)).1) := by
  -- What the change reads of the tasks is the same before and after they are taken off.
  have hflag : SameSlices s (s.modify p fun t => { t with schedResetOnFork := resetFork }) :=
    SameSlices.modify rfl rfl rfl
  have hself : ((s.modify p fun t => { t with schedResetOnFork := resetFork }).task p).staticPrio
        = (s.task p).staticPrio ∧
      ((s.modify p fun t => { t with schedResetOnFork := resetFork }).task p).piTopTask
        = (s.task p).piTopTask := by
    rw [s.modify_task_self]
    exact ⟨rfl, rfl⟩
  unfold setschedulerChange
  simp only
  generalize s.modify p (fun t => { t with schedResetOnFork := resetFork }) = s₁ at hflag hself
  refine (SameSlices.of_quiet (checkClassChanged_quiet other _ p _ _)).fit_iff.trans ?_
  refine (SameSlices.of_quiet (setCurrIf_quiet other _ p _)).fit_iff.trans ?_
  refine (putBack_slicesFit (hflag.fit_iff.mpr hfit)
    (setscheduler_quiet other attr policy pi) _ rfl).trans ?_
  refine (rescheduled_sliceFits _ _ _ _).trans ?_
  refine forall_congr' fun hpol => ?_
  subst hpol
  generalize hflags : ({ restore := true, move := _, noclock := true } : QueueFlags) = flags
  have hoff := hflag.trans (takeOff_sameSlices other s₁ p flags)
  have hown := (takeOff_owns other s₁ p flags).self
  have hprio : setschedulerPrio (takeOff other s₁ p flags) p attr .ts pi
      = staticOrBoosted s p pi := by
    rw [setschedulerPrio_ts]
    unfold staticOrBoosted
    rw [hown.staticPrio, hself.1,
      rtEffectivePrio_congr (hown.piTopTask.trans hself.2) hoff.prio]
  rw [hprio, hoff.ts p]

theorem schedSetscheduler_slicesFit (hfit : SlicesFit s) (env : SetschedulerEnv)
    (attr : SchedAttr) (user pi : Bool) :
    SlicesFit (schedSetscheduler other env s p attr user pi).2 ↔
      FindsShortSlice s (.schedSetscheduler p attr env user pi) := by
  show _ ↔ (entersTs s p attr env user → 100 ≤ staticOrBoosted s p pi →
    (s.task p).ts.timeSlice ≤ (getNumTicks (staticOrBoosted s p pi)).1)
  have hstays : ¬entersTs s p attr env user → (entersTs s p attr env user →
      100 ≤ staticOrBoosted s p pi →
      (s.task p).ts.timeSlice ≤ (getNumTicks (staticOrBoosted s p pi)).1) :=
    fun hnot henters => absurd henters hnot
  have hflag : ∀ resetFork, SlicesFit (s.modify p fun t => { t with schedResetOnFork := resetFork }) :=
    fun _ => (SameSlices.modify rfl rfl rfl).fit_iff.mpr hfit
  unfold schedSetscheduler
  simp only
  split
  · rename_i hpol
    refine iff_of_true hfit (hstays ?_)
    rintro ⟨hreq, -⟩
    unfold requestedPolicy at hreq
    rw [hpol] at hreq
    simp at hreq
  · rename_i policy hpol
    have hreq : requestedPolicy (s.task p) attr = some policy := hpol
    split
    · rename_i hcheck
      refine iff_of_true hfit (hstays ?_)
      rintro ⟨hts, hch⟩
      rw [hreq] at hts
      rw [Option.some.inj hts, hch] at hcheck
      simp at hcheck
    · rename_i hcheck
      refine iff_of_true (hflag _) (hstays ?_)
      rintro ⟨hts, hch⟩
      rw [hreq] at hts
      rw [Option.some.inj hts, hch] at hcheck
      simp at hcheck
    · rename_i hcheck
      refine (setschedulerChange_slicesFit hfit attr policy _ pi).trans ?_
      constructor
      · rintro himp ⟨hts, -⟩
        rw [hreq] at hts
        exact himp (Option.some.inj hts)
      · intro himp hts
        refine himp ⟨by rw [hreq, hts], ?_⟩
        rw [← hts]
        exact hcheck

/-! ### Whole runs -/

/-- One operation keeps the slices in line exactly when it finds a slice short enough for the
priority it gives. -/
theorem step_slicesFit {op : Op} (h : Inv s) (hfit : SlicesFit s)
    (hstep : step other s op = some s') : SlicesFit s' ↔ FindsShortSlice s op := by
  obtain ⟨hen, rfl⟩ := step_eq_some hstep
  cases op with
  | schedFork child => exact schedFork_slicesFit h hfit child
  | tryToWakeUp p wakeFlags => exact tryToWakeUp_slicesFit h hfit wakeFlags
  | setUserNice p nice => exact setUserNice_slicesFit h hfit nice
  | schedSetscheduler p attr env user pi => exact schedSetscheduler_slicesFit hfit env attr user pi
  | schedulerTick => exact iff_of_true (schedulerTick_slicesFit h hfit) trivial
  | taskSchedRuntime p =>
      have hsame := SameSlices.of_quiet (taskSchedRuntime_quiet other s p)
      exact iff_of_true (hsame.fit_iff.mpr hfit) trivial
  | doSchedRtPeriodTimer =>
      have hsame := SameSlices.of_quiet (doSchedRtPeriodTimer_timed other s).toQuiet
      exact iff_of_true (hsame.fit_iff.mpr hfit) trivial
  | rtMutexSetprio p piTask => exact iff_of_true (rtMutexSetprio_slicesFit hfit p piTask) trivial
  | wakeUpNewTask p =>
      have h1 : SameSlices s (s.modify p fun t => { t with state := .running }) :=
        SameSlices.modify rfl rfl rfl
      have h2 := h1.trans (enqueueTask_sameSlices other _ p { noclock := true } fun _ => rfl)
      have h3 : SameSlices s ((enqueueTask other (s.modify p fun t => { t with state := .running }) p
          { noclock := true }).modify p fun t => { t with onRq := true }) :=
        h2.trans (SameSlices.modify rfl rfl rfl)
      have h4 := h3.trans (SameSlices.of_quiet (checkPreemptCurr_quiet other _ p 2))
      exact iff_of_true (h4.fit_iff.mpr hfit) trivial
  | setCurrentState st =>
      have hsame : SameSlices s (s.modify s.curr fun t => { t with state := st }) :=
        SameSlices.modify rfl rfl rfl
      exact iff_of_true (hsame.fit_iff.mpr hfit) trivial
  | schedule preempt signalPending =>
      exact iff_of_true ((schedule_sameSlices other h preempt signalPending).fit_iff.mpr hfit) trivial
  | doSchedYield signalPending =>
      have hsame := (yieldTask_sameSlices other s).trans
        (schedule_sameSlices other (yieldTask_inv other h) false signalPending)
      exact iff_of_true (hsame.fit_iff.mpr hfit) trivial
  | doTaskDead =>
      have hdead := h.setState (p := s.curr) (show TaskState.dead ≠ .new by simp)
        fun heq => absurd heq hen
      have hsame : SameSlices s (s.modify s.curr fun t => { t with state := .dead }) :=
        SameSlices.modify rfl rfl rfl
      exact iff_of_true ((hsame.trans
        (schedule_sameSlices other hdead false false)).fit_iff.mpr hfit) trivial
  | doSetCpusAllowed p =>
      have hsame := ((takeOff_sameSlices other s p { restore := true, noclock := true }).trans
        (enqueueIf_sameSlices other _ p (s.task p).onRq { restore := true, noclock := true }
          rfl)).trans
        (SameSlices.of_quiet (setCurrIf_quiet other _ p (s.curr = p)))
      exact iff_of_true (hsame.fit_iff.mpr hfit) trivial

/--
**Slices.**  All along a run no task of the class holds more ticks than its priority
grants, exactly when that is so at boot and every step that gives a task of the class a
priority without setting its slice finds the slice short enough.
-/
theorem slicesFit_iff (hboot : Boot s) {ops : List Op}
    (hrun : Runs.run (step other) s ops = some t) :
    Runs.Always (step other) SlicesFit s ops ↔
      SlicesFit s ∧ Runs.EachStep (step other) FindsShortSlice s ops := by
  have hiff : SlicesFit s → (Runs.Always (step other) SlicesFit s ops ↔
      Runs.EachStep (step other) FindsShortSlice s ops) := fun hfit =>
    Runs.always_iff_eachStep (fun _ _ _ h hstep => step_inv h hstep)
      (fun _ _ _ h hfit hstep => step_slicesFit h hfit hstep) ops s t hboot.inv hfit hrun
  constructor
  · intro halways
    have hfit : SlicesFit s := Runs.always_first ops s halways
    exact ⟨hfit, (hiff hfit).mp halways⟩
  · rintro ⟨hfit, heach⟩
    exact (hiff hfit).mpr heach

/-- A task of nice 0 that has slept still has its twelve ticks at priority 108, which grants
four. -/
theorem slicesFit_fails_after_wakeup :
    Boot bootSys ∧ ∃ t, Runs.run (step queueFair) bootSys sleepAndWake = some t ∧
      ¬SlicesFit t := by
  refine ⟨bootSys_boot, _, rfl, ?_⟩
  intro hfit
  exact absurd (hfit 1 rfl) (by decide +kernel)

/-- A task of nice 0 goes to sleep when four of its ticks are left. -/
def sleepLate : List Op :=
  .toTs 1 :: (List.replicate 8 .schedulerTick ++
    [.setCurrentState .interruptible, .schedule false false])

/-- These four are what it may have when it wakes. -/
theorem slicesFit_sleepLate :
    ∃ t, Runs.run (step queueFair) bootSys (sleepLate ++ [.tryToWakeUp 1 0]) = some t ∧
      (t.task 1).prio = 108 ∧ (t.task 1).ts.timeSlice = 4 ∧
      Runs.Always (step queueFair) SlicesFit bootSys (sleepLate ++ [.tryToWakeUp 1 0]) := by
  have heval : (Runs.run (step queueFair) bootSys (sleepLate ++ [.tryToWakeUp 1 0])).map
      (fun t => ((t.task 1).prio, (t.task 1).ts.timeSlice)) = some (108, 4) := by decide +kernel
  obtain ⟨t, hrun, ht⟩ := Option.map_eq_some_iff.mp heval
  rw [Prod.mk.injEq] at ht
  have hasleep : (Runs.run (step queueFair) bootSys sleepLate).map
      (fun t => (t.task 1).ts.timeSlice) = some 4 := by decide +kernel
  obtain ⟨u, hlate, hu⟩ := Option.map_eq_some_iff.mp hasleep
  have hboot : SlicesFit bootSys := by
    intro q
    refine bootSys_task q SliceFits ?_ ?_ ?_ <;> intro hts <;> simp [normalTask] at hts
  have htoTs : FindsShortSlice bootSys (.toTs 1) := by
    intro _ _
    decide +kernel
  have hticks : Runs.EachStep (step queueFair) FindsShortSlice bootSys sleepLate := by
    refine ⟨htoTs, fun v _ => Runs.eachStep_of_all fun v op hop => ?_⟩
    simp only [List.mem_append, List.mem_replicate, List.mem_cons, List.not_mem_nil,
      or_false] at hop
    rcases hop with ⟨-, rfl⟩ | rfl | rfl <;> trivial
  refine ⟨t, hrun, ht.1, ht.2, (slicesFit_iff bootSys_boot hrun).mpr ⟨hboot, ?_⟩⟩
  exact Runs.eachStep_append hticks hlate ⟨fun _ => le_of_eq hu, fun _ _ => trivial⟩

end Sched
