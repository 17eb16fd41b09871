/-
The invariant of the machine, kept by every operation.

Each operation that changes how a task is scheduled takes the task off its queue,
rewrites it and puts it back, and the dequeue and the enqueue need not go to the
same class.  The one way this could leave a task linked twice is a dequeue that
leaves the node on its real-time list (`savedBy`) followed by an enqueue that does
not expect it there.  `rescheduled_rt_iff` shows that the two always agree.
-/
import KernelProgramming.Proofs.Sched.Links

namespace Sched

variable {X : Type} {other : OtherClasses X} {s s' : Sys X} {p : TaskId}
variable {on on' : TaskId → Bool} {saved : Option TaskId}

/-! ### Dispatch -/

/-- The task that a dequeue with these flags leaves on its list. -/
def savedBy (t : TaskStruct) (p : TaskId) (flags : QueueFlags) : Option TaskId :=
  if t.schedClass = .rt ∧ moveEntity flags = false then some p else none

theorem savedBy_of_move {t : TaskStruct} {flags : QueueFlags} (h : moveEntity flags = true) :
    savedBy t p flags = none := by
  unfold savedBy
  rw [if_neg (by simp [h])]

theorem savedBy_of_ne_rt {t : TaskStruct} {flags : QueueFlags} (h : t.schedClass ≠ .rt) :
    savedBy t p flags = none := by
  unfold savedBy
  rw [if_neg (by simp [h])]

theorem savedBy_congr {t t' : TaskStruct} {flags flags' : QueueFlags}
    (hcls : t.schedClass = .rt ↔ t'.schedClass = .rt) (hrestore : flags'.restore = flags.restore)
    (hmove : flags'.move = flags.move) : savedBy t p flags = savedBy t' p flags' := by
  unfold savedBy moveEntity
  rw [hrestore, hmove]
  simp only [hcls]

/-- The queues know nothing of a task of another class. -/
theorem Linked.of_other_class (h : Linked on saved s) (hts : (s.task p).schedClass ≠ .ts)
    (hrt : (s.task p).schedClass ≠ .rt) (hon : ∀ q, q ≠ p → on' q = on q) :
    Linked on' saved s := by
  refine ⟨h.tasks, ?_, ?_, ?_, h.faults⟩
  · intro q
    rw [h.ts q]
    by_cases hq : q = p
    · subst hq
      simp [hts]
    · rw [hon q hq]
  · intro q
    rw [h.rt q]
    by_cases hq : q = p
    · subst hq
      simp [hrt]
    · rw [hon q hq]
  · intro q
    rw [h.rtOn q]
    by_cases hq : q = p
    · subst hq
      simp [hrt]
    · rw [hon q hq]

variable (other) in
theorem dequeueTask_linked (h : Linked on none s) (hp : on p = true) (flags : QueueFlags) :
    Linked (without on p) (savedBy (s.task p) p flags) (dequeueTask other s p flags) := by
  unfold dequeueTask
  split
  · rename_i hts
    rw [savedBy_of_ne_rt (by simp [hts])]
    exact dequeueTaskTs_linked h hp hts
  · rename_i hrt
    have hl := dequeueTaskRt_linked other h hp hrt flags
    unfold savedBy
    by_cases hm : moveEntity flags = true
    · rw [if_pos hm] at hl
      rw [if_neg (by simp [hm])]
      exact hl
    · rw [if_neg hm] at hl
      rw [if_pos ⟨hrt, by simpa using hm⟩]
      exact hl
  · rename_i hts hrt
    rw [savedBy_of_ne_rt hrt]
    refine (h.of_other_class hts hrt ?_).of_quiet (callOther_quiet other s _ _)
    intro q hq
    exact without_of_ne on hq

variable (other) in
theorem enqueueTask_linked {flags : QueueFlags}
    (h : Linked on (savedBy (s.task p) p flags) s) (hp : on p = false) :
    Linked (including on p) none (enqueueTask other s p flags) := by
  unfold enqueueTask
  split
  · rename_i hts
    rw [savedBy_of_ne_rt (by simp [hts])] at h
    exact enqueueTaskTs_linked h hp hts flags
  · rename_i hrt
    refine enqueueTaskRt_linked h hp hrt flags ?_
    unfold savedBy
    cases moveEntity flags <;> simp [hrt]
  · rename_i hts hrt
    rw [savedBy_of_ne_rt hrt] at h
    refine (h.of_other_class hts hrt ?_).of_quiet (callOther_quiet other s _ _)
    intro q hq
    exact including_of_ne on hq

variable (other) in
theorem takeOff_linked (h : Linked on none s) (hp : on p = (s.task p).onRq) (flags : QueueFlags) :
    Linked (without on p) (if (s.task p).onRq then savedBy (s.task p) p flags else none)
      (takeOff other s p flags) := by
  have hdeq : Linked (without on p) (if (s.task p).onRq then savedBy (s.task p) p flags else none)
      (if (s.task p).onRq then dequeueTask other s p flags else s) := by
    by_cases hq : (s.task p).onRq = true
    · rw [if_pos hq, if_pos hq]
      exact dequeueTask_linked other h (hp.trans hq) flags
    · rw [if_neg hq, if_neg hq, without_eq_self on (by rw [hp]; simpa using hq)]
      exact h
  unfold takeOff
  simp only
  by_cases hcurr : s.curr = p
  · rw [if_pos hcurr]
    exact hdeq.of_quiet (putPrevTask_quiet other _ p)
  · rw [if_neg hcurr]
    exact hdeq

theorem enqueueIf_linked {flags : QueueFlags} {queued : Bool} (hq : on p = queued)
    (h : Linked (without on p) (if queued then savedBy (s.task p) p flags else none) s) :
    Linked on none (enqueueIf other s p queued flags) := by
  unfold enqueueIf
  cases queued with
  | true =>
      have hl := enqueueTask_linked other h (without_self on p)
      rw [including_without on hq] at hl
      exact hl
  | false =>
      rw [without_eq_self on hq] at h
      exact h

/-- While a task is off its queue it may be given any priority, policy and class. -/
theorem Linked.rewrite (h : Linked (without on p) saved s) {f : TaskStruct → TaskStruct}
    (hok : TaskOK (f (s.task p))) (hrt : (f (s.task p)).rt.onRq = (s.task p).rt.onRq) :
    Linked (without on p) saved (s.modify p f) := by
  refine h.modify (without_self on p) hok ?_
  have hoff := h.rtOn p
  rw [hrt]
  simpa using hoff

/-- Rewriting a task twice, with a hook in between, is rewriting it once. -/
theorem Quiet.modify {f g : TaskStruct → TaskStruct} (h : Quiet (s.modify p f) s') :
    Quiet (s.modify p fun t => g (f t)) (s'.modify p g) := by
  refine ⟨?_, h.curr, h.idle, h.stop, h.tsQueue, h.rtQueue, h.faults⟩
  show Function.update s'.task p (g (s'.task p)) = _
  rw [h.task, s.modify_task_self]
  exact Function.update_idem ..

/-! ### The invariant -/

/-- What is true whenever a task may be picked. -/
structure Ready (s : Sys X) : Prop where
  linked : LinkedOnRq s
  idle : (s.task s.idle).onRq = true ∧ (s.task s.idle).state = .running
  new : ∀ q, (s.task q).state = .new → (s.task q).onRq = false
  stopTask : ∀ q, (s.task q).schedClass = .stop → s.stop = some q
  idleTask : ∀ q, (s.task q).schedClass = .idle → q = s.idle

/-- What is true between two operations: besides, the running task is queued. -/
structure Inv (s : Sys X) : Prop extends Ready s where
  curr : (s.task s.curr).onRq = true

theorem Linked.onRq (h : Linked on none s) (hon : ∀ q, (s.task q).onRq = on q) :
    LinkedOnRq s := by
  have heq : (fun q => (s.task q).onRq) = on := funext hon
  unfold LinkedOnRq
  rw [heq]
  exact h

/-- An operation on one task.  What is left to say is what the task is like afterwards, and
that the queues are right. -/
theorem Ready.changed (h : Ready s) (hidle : s'.idle = s.idle) (hstop : s'.stop = s.stop)
    (hframe : ∀ q, q ≠ p → s'.task q = s.task q) (hl : LinkedOnRq s')
    (hpidle : p = s.idle → (s'.task p).onRq = true ∧ (s'.task p).state = .running)
    (hnew : (s'.task p).state = .new → (s'.task p).onRq = false)
    (hstopCls : (s'.task p).schedClass = .stop → s.stop = some p)
    (hidleCls : (s'.task p).schedClass = .idle → p = s.idle) : Ready s' := by
  refine ⟨hl, ?_, ?_, ?_, ?_⟩
  · rw [hidle]
    by_cases hp : s.idle = p
    · rw [hp]
      exact hpidle hp.symm
    · rw [hframe _ hp]
      exact h.idle
  · intro q hq
    by_cases hp : q = p
    · subst hp
      exact hnew hq
    · rw [hframe q hp] at hq ⊢
      exact h.new q hq
  · intro q hq
    rw [hstop]
    by_cases hp : q = p
    · subst hp
      exact hstopCls hq
    · rw [hframe q hp] at hq
      exact h.stopTask q hq
  · intro q hq
    rw [hidle]
    by_cases hp : q = p
    · subst hp
      exact hidleCls hq
    · rw [hframe q hp] at hq
      exact h.idleTask q hq

/-- An operation that leaves alone who is runnable and queued only has to get the queues
right. -/
theorem Inv.of_keeps (h : Inv s) (hk : Keeps p s s')
    (hl : Linked (fun q => (s.task q).onRq) none s')
    (hcls : (s'.task p).schedClass = (s.task p).schedClass ∨
      ((s'.task p).schedClass ≠ .stop ∧ (s'.task p).schedClass ≠ .idle)) : Inv s' := by
  refine ⟨h.toReady.changed hk.idle hk.stop hk.frame (hl.onRq hk.onRq_eq) ?_ ?_ ?_ ?_, ?_⟩
  · intro hp
    rw [hk.onRq_eq, hk.state_eq, hp]
    exact h.idle
  · intro hq
    rw [hk.state_eq] at hq
    rw [hk.onRq_eq]
    exact h.new p hq
  · intro hq
    rcases hcls with hsame | hne
    · exact h.stopTask p (hsame ▸ hq)
    · exact absurd hq hne.1
  · intro hq
    rcases hcls with hsame | hne
    · exact h.idleTask p (hsame ▸ hq)
    · exact absurd hq hne.2
  · rw [hk.curr, hk.onRq_eq]
    exact h.curr

theorem Inv.of_quiet (h : Inv s) (hq : Quiet s s') : Inv s' := by
  refine h.of_keeps (hq.keeps s.curr) (h.linked.of_quiet hq) ?_
  rw [hq.task]
  exact Or.inl rfl

/-- The state of a task may be set to anything but `TASK_NEW`. -/
theorem Inv.setState (h : Inv s) {st : TaskState} (hst : st ≠ .new)
    (hp : p = s.idle → st = .running) :
    Inv (s.modify p fun t => { t with state := st }) := by
  have honRq : ∀ q, ((s.modify p fun t => { t with state := st }).task q).onRq
      = (s.task q).onRq := by
    intro q
    by_cases hq : q = p
    · rw [hq, s.modify_task_self]
    · rw [s.modify_task_of_ne _ hq]
  have hok : TaskOK { s.task p with state := st } := (h.linked.tasks p).setRunnable st _
  have hl := (h.linked.modify_same hok rfl rfl).onRq honRq
  refine ⟨h.toReady.changed (p := p) rfl rfl (fun q hq => s.modify_task_of_ne _ hq) hl
    ?_ ?_ ?_ ?_, ?_⟩
  · intro hpi
    rw [honRq, s.modify_task_self, hpi]
    exact ⟨h.idle.1, hp hpi⟩
  · intro hq
    rw [s.modify_task_self] at hq
    exact absurd hq hst
  · intro hq
    rw [s.modify_task_self] at hq
    exact h.stopTask p hq
  · intro hq
    rw [s.modify_task_self] at hq
    exact h.idleTask p hq
  · rw [honRq]
    exact h.curr

/-- A task that is linked may be marked as queued. -/
theorem Inv.activated (h : Inv s) (hp : (s.task p).state ≠ .new) (hown : Owns p s s')
    (hl : Linked (including (fun q => (s.task q).onRq) p) none s') :
    Inv (s'.modify p fun t => { t with onRq := true }) := by
  have honRq : ∀ q, ((s'.modify p fun t => { t with onRq := true }).task q).onRq
      = including (fun q => (s.task q).onRq) p q := by
    intro q
    by_cases hq : q = p
    · rw [hq, s'.modify_task_self, including_self]
    · rw [s'.modify_task_of_ne _ hq, hown.frame q hq, including_of_ne _ hq]
  have hok : TaskOK { s'.task p with onRq := true } := (hl.tasks p).setRunnable _ true
  have hlinked := (hl.modify_same hok rfl rfl).onRq honRq
  refine ⟨h.toReady.changed (p := p) hown.idle hown.stop ?_ hlinked ?_ ?_ ?_ ?_, ?_⟩
  · intro q hq
    rw [s'.modify_task_of_ne _ hq, hown.frame q hq]
  · intro hpi
    rw [s'.modify_task_self]
    refine ⟨rfl, ?_⟩
    show (s'.task p).state = .running
    rw [hown.self.state, hpi]
    exact h.idle.2
  · intro hq
    rw [s'.modify_task_self] at hq
    exact absurd (hown.self.state.symm.trans hq) hp
  · intro hq
    rw [s'.modify_task_self] at hq
    exact h.stopTask p (hown.self.schedClass.symm.trans hq)
  · intro hq
    rw [s'.modify_task_self] at hq
    exact h.idleTask p (hown.self.schedClass.symm.trans hq)
  · show ((s'.modify p _).task s'.curr).onRq = true
    rw [honRq, hown.curr]
    by_cases hc : s.curr = p
    · rw [hc, including_self]
    · rw [including_of_ne _ hc]
      exact h.curr

/-! ### Fork and wakeup -/

variable (other) in
theorem forkedTask_kept (t : TaskStruct) :
    (forkedTask other t).state = .new ∧ (forkedTask other t).onRq = false ∧
      (forkedTask other t).rt.onRq = false := by
  unfold forkedTask resetOnFork
  dsimp only
  split
  · exact ⟨rfl, rfl, rfl⟩
  · split
    · exact ⟨rfl, rfl, rfl⟩
    · split <;> exact ⟨rfl, rfl, rfl⟩

theorem classOf_ne (prio : Int) (policy : Policy) :
    classOf prio policy ≠ .stop ∧ classOf prio policy ≠ .idle := by
  unfold classOf
  split
  · simp
  · split <;> simp

theorem schedFork_inv (h : Inv s) {child : TaskId} (hoff : (s.task child).onRq = false)
    (hidle : child ≠ s.idle) : Inv (schedFork other s child).2 := by
  have hcurr : s.curr ≠ child := by
    intro heq
    have := h.curr
    rw [heq, hoff] at this
    simp at this
  unfold schedFork
  simp only
  split
  · exact h
  · rename_i hdl
    have hok := TaskOK.forked other (h.linked.tasks s.curr) (by simpa using hdl)
    obtain ⟨hstate, honRq, hrt⟩ := forkedTask_kept other (s.task s.curr)
    generalize forkedTask other (s.task s.curr) = t at hok hstate honRq hrt
    have hinv : Inv (s.modify child fun _ => { t with schedClass := classOf t.prio t.policy }) := by
      have hon : ∀ q, ((s.modify child fun _ =>
          { t with schedClass := classOf t.prio t.policy }).task q).onRq = (s.task q).onRq := by
        intro q
        by_cases hq : q = child
        · rw [hq, s.modify_task_self, hoff]
          exact honRq
        · rw [s.modify_task_of_ne _ hq]
      have hl := (h.linked.modify hoff hok hrt).onRq hon
      refine ⟨h.toReady.changed (p := child) rfl rfl (fun q hq => s.modify_task_of_ne _ hq) hl
        (fun hi => absurd hi hidle) ?_ ?_ ?_, ?_⟩
      · intro _
        rw [hon]
        exact hoff
      · intro hq
        rw [s.modify_task_self] at hq
        exact absurd hq (classOf_ne _ _).1
      · intro hq
        rw [s.modify_task_self] at hq
        exact absurd hq (classOf_ne _ _).2
      · rw [hon]
        exact h.curr
    split
    · exact hinv
    · exact hinv
    · exact hinv.of_quiet (callOther_quiet other _ _ _)

/-- Linking a task that is not queued, and marking it as queued. -/
theorem enqueued_inv (h : Inv s) (hp : (s.task p).state ≠ .new) (hoff : (s.task p).onRq = false)
    {flags : QueueFlags} (hm : moveEntity flags = true) :
    Inv ((enqueueTask other s p flags).modify p fun t => { t with onRq := true }) := by
  refine h.activated hp (enqueueTask_owns other s p flags) ?_
  refine enqueueTask_linked other ?_ hoff
  rw [savedBy_of_move hm]
  exact h.linked

theorem wakeUpNewTask_inv (h : Inv s) (hnew : (s.task p).state = .new) :
    Inv (wakeUpNewTask other s p) := by
  have hoff := h.new p hnew
  have h1 : Inv (s.modify p fun t => { t with state := .running }) :=
    h.setState (by simp) fun _ => rfl
  unfold wakeUpNewTask
  simp only
  refine Inv.of_quiet ?_ (checkPreemptCurr_quiet other _ p 2)
  refine enqueued_inv h1 ?_ ?_ rfl
  · rw [s.modify_task_self]
    simp
  · rw [s.modify_task_self]
    exact hoff

theorem ttwuDoWakeup_inv (h : Inv s) (wakeFlags : Nat) : Inv (ttwuDoWakeup other s p wakeFlags) :=
  (h.of_quiet (checkPreemptCurr_quiet other s p wakeFlags)).setState (by simp) fun _ => rfl

theorem tryToWakeUp_inv (h : Inv s) (wakeFlags : Nat) : Inv (tryToWakeUp other s p wakeFlags) := by
  unfold tryToWakeUp
  split
  · exact h
  · rename_i hstate
    split
    · exact ttwuDoWakeup_inv h wakeFlags
    · rename_i hoff
      refine ttwuDoWakeup_inv (enqueued_inv h ?_ (by simpa using hoff) rfl) wakeFlags
      intro hnew
      simp [hnew] at hstate

/-! ### Ticks, yields and `__schedule` -/

/-- A task that is on a time-sharing list is queued and of the class. -/
theorem Linked.mem_ts (h : Linked on saved s) {i : Fin 40} (hmem : p ∈ s.tsQueue i) :
    on p = true ∧ (s.task p).schedClass = .ts := by
  by_contra hne
  have hz := h.ts p
  rw [if_neg hne] at hz
  exact Levels.count_eq_zero.mp hz i hmem

/-- A queued task of the class is on one of the lists. -/
theorem Linked.ts_mem (h : Linked on saved s) (hp : on p = true)
    (hts : (s.task p).schedClass = .ts) : ∃ i, p ∈ s.tsQueue i := by
  have hone := h.ts p
  rw [if_pos ⟨hp, hts⟩] at hone
  exact Levels.count_ne_zero.mp (by omega)

theorem Linked.mem_rt (h : Linked on none s) {i : Fin 100} (hmem : p ∈ s.rtQueue i) :
    on p = true ∧ (s.task p).schedClass = .rt := by
  by_contra hne
  have hz := h.rt p
  rw [if_neg (by simpa using hne)] at hz
  exact Levels.count_eq_zero.mp hz i hmem

theorem pickNextTaskTs_mem (h : pickNextTaskTs s = some p) : ∃ i, p ∈ s.tsQueue i := by
  obtain ⟨i, hhead, -⟩ := Levels.top?_eq_some h
  exact ⟨i, List.mem_of_mem_head? hhead⟩

theorem pickNextRtEntity_mem (h : pickNextRtEntity s = some p) : ∃ i, p ∈ s.rtQueue i := by
  unfold pickNextRtEntity at h
  split at h
  · simp at h
  · exact ⟨_, List.mem_of_mem_head? h⟩

theorem pickNextTaskRt_mem {prev : TaskId} (h : (pickNextTaskRt other s prev).1 = some p) :
    ∃ i, p ∈ (pickNextTaskRt other s prev).2.rtQueue i := by
  have h' : (if !(pickNextTaskRt other s prev).2.rtQueued then none
      else pickNextRtEntity (pickNextTaskRt other s prev).2) = some p := h
  split at h'
  · simp at h'
  · exact pickNextRtEntity_mem h'

theorem Ready.of_quiet (h : Ready s) (hq : Quiet s s') : Ready s' := by
  refine ⟨(h.linked.of_quiet hq).onRq fun q => by rw [hq.task], ?_, ?_, ?_, ?_⟩
  · rw [hq.idle, hq.task]; exact h.idle
  · rw [hq.task]; exact h.new
  · rw [hq.stop, hq.task]; exact h.stopTask
  · rw [hq.idle, hq.task]; exact h.idleTask

variable (other) in
theorem pickNextTaskRt_timed (s : Sys X) (prev : TaskId) :
    Timed s (pickNextTaskRt other s prev).2 := by
  unfold pickNextTaskRt
  dsimp only
  split
  · exact updateCurrRt_timed other s
  · exact Timed.refl s

variable (other) in
theorem putPrevIf_quiet (s : Sys X) (prev : TaskId) (answer : Option TaskId) :
    Quiet s (putPrevIf other s prev answer).2 := by
  unfold putPrevIf
  dsimp only
  split
  · exact Quiet.refl s
  · exact putPrevTask_quiet other s prev

variable (other) in
/-- Whatever class is asked, nothing but the class's data changes. -/
theorem pickClass_quiet (s : Sys X) (prev : TaskId) (cls : SchedClass) :
    Quiet s (pickClass other s prev cls).2 := by
  unfold pickClass
  split
  · exact putPrevIf_quiet other s prev _
  · exact (pickNextTaskRt_timed other s prev).toQuiet.trans (putPrevIf_quiet other _ prev _)
  · exact putPrevIf_quiet other s prev _
  · split
    · exact Quiet.refl s
    · exact applyHook_quiet s _

/-- The task a class answers with is queued. -/
theorem pickClass_own (h : Ready s) {prev : TaskId} {cls : SchedClass}
    (hr : (pickClass other s prev cls).1 = some p) : (s.task p).onRq = true := by
  unfold pickClass at hr
  split at hr
  · obtain ⟨i, hmem⟩ := pickNextTaskTs_mem hr
    exact (h.linked.mem_ts hmem).1
  · have htimed := pickNextTaskRt_timed other s prev
    obtain ⟨i, hmem⟩ := pickNextTaskRt_mem hr
    rw [htimed.rtQueue] at hmem
    exact (h.linked.mem_rt hmem).1
  · cases hr
    exact h.idle.1
  · split at hr
    · cases hr
    · rename_i hpick
      cases hr
      exact (other.pick_own hpick).2

theorem classWalk_own {prev : TaskId} {r : TaskId × Sys X} :
    ∀ (classes : List SchedClass) {s : Sys X}, Ready s → classWalk other s prev classes = some r →
      (s.task r.1).onRq = true ∧ Quiet s r.2 := by
  intro classes
  induction classes with
  | nil =>
      intro s _ hr
      simp [classWalk] at hr
  | cons cls rest ih =>
      intro s h hr
      have hquiet := pickClass_quiet other s prev cls
      unfold classWalk at hr
      split at hr
      · rename_i p u hcls
        cases hr
        rw [hcls] at hquiet
        exact ⟨pickClass_own h (by rw [hcls]), hquiet⟩
      · rename_i u hcls
        rw [hcls] at hquiet
        obtain ⟨hon, hrest⟩ := ih (h.of_quiet hquiet) hr
        rw [hquiet.task] at hon
        exact ⟨hon, hquiet.trans hrest⟩

variable (other) in
/-- The walk always ends with a task, at the latest with the idle task. -/
theorem classWalk_total (prev : TaskId) :
    ∀ (classes : List SchedClass) (s : Sys X), .idle ∈ classes →
      ∃ r, classWalk other s prev classes = some r := by
  intro classes
  induction classes with
  | nil =>
      intro s hmem
      simp at hmem
  | cons cls rest ih =>
      intro s hmem
      unfold classWalk
      split
      · exact ⟨_, rfl⟩
      · rename_i u hnone
        rcases List.mem_cons.mp hmem with hcls | hrest
        · rw [← hcls] at hnone
          simp [pickClass, putPrevIf] at hnone
        · exact ih u hrest

variable (other) in
/-- `pick_next_task` never gets to its `BUG()`, and what it returns is queued. -/
theorem pickNextTask_own (h : Ready s) (prev : TaskId) :
    ∃ r, pickNextTask other s prev = some r ∧ (s.task r.1).onRq = true ∧ Quiet s r.2 := by
  unfold pickNextTask
  split
  · obtain ⟨r, hr⟩ := classWalk_total other prev [.fair, .idle] s (by decide)
    exact ⟨r, hr, classWalk_own _ h hr⟩
  · obtain ⟨r, hr⟩ := classWalk_total other prev SchedClass.forEachClass s (by decide)
    exact ⟨r, hr, classWalk_own _ h hr⟩

variable (other) in
/-- Taking the running task off the runqueue, if it is going to sleep. -/
theorem deactivatePrev_ready (h : Inv s) (preempt signalPending : Bool) :
    Ready (deactivatePrev other s preempt signalPending) := by
  unfold deactivatePrev
  split
  · rename_i hsleep
    have hidle : s.curr ≠ s.idle := by
      intro heq
      rw [heq] at hsleep
      exact hsleep.2 h.idle.2
    split
    · exact (h.setState (by simp) fun _ => rfl).toReady
    · have hown := dequeueTask_owns other s s.curr { wakeup := true, noclock := true }
      have hl := dequeueTask_linked other h.linked h.curr
        { wakeup := true, noclock := true }
      rw [savedBy_of_move rfl] at hl
      generalize dequeueTask other s s.curr { wakeup := true, noclock := true } = u at hown hl
      have honRq : ∀ q, ((u.modify s.curr fun t => { t with onRq := false }).task q).onRq
          = without (fun q => (s.task q).onRq) s.curr q := by
        intro q
        by_cases hq : q = s.curr
        · rw [hq, u.modify_task_self, without_self]
        · rw [u.modify_task_of_ne _ hq, hown.frame q hq, without_of_ne _ hq]
      have hok : TaskOK { u.task s.curr with onRq := false } :=
        (hl.tasks s.curr).setRunnable _ false
      have hlinked := (hl.modify_same hok rfl rfl).onRq honRq
      refine h.toReady.changed (p := s.curr) hown.idle hown.stop ?_ hlinked
        (fun hi => absurd hi hidle) ?_ ?_ ?_
      · intro q hq
        rw [u.modify_task_of_ne _ hq, hown.frame q hq]
      · intro _
        rw [u.modify_task_self]
      · intro hq
        rw [u.modify_task_self] at hq
        exact h.stopTask s.curr (hown.self.schedClass.symm.trans hq)
      · intro hq
        rw [u.modify_task_self] at hq
        exact h.idleTask s.curr (hown.self.schedClass.symm.trans hq)
  · exact h.toReady

/-- Switching to a task that is queued. -/
theorem Ready.switch (h : Ready s) {next : TaskId} (hon : (s.task next).onRq = true) :
    Inv { s with needResched := false, curr := next } := by
  have hl := h.linked
  exact ⟨⟨⟨hl.tasks, hl.ts, hl.rt, hl.rtOn, hl.faults⟩, h.idle, h.new, h.stopTask, h.idleTask⟩,
    hon⟩

variable (other) in
/-- What `__schedule` comes to: `prev` is taken off if it sleeps, and a queued task is
switched to. -/
theorem schedule_eq (h : Inv s) (preempt signalPending : Bool) :
    ∃ next v, Quiet (deactivatePrev other s preempt signalPending) v ∧
      (v.task next).onRq = true ∧
      schedule other s preempt signalPending = { v with needResched := false, curr := next } := by
  have hready := deactivatePrev_ready other h preempt signalPending
  unfold schedule
  simp only
  generalize deactivatePrev other s preempt signalPending = u at hready
  obtain ⟨⟨next, v⟩, hpick, hon, hquiet⟩ := pickNextTask_own other hready u.curr
  refine ⟨next, v, hquiet, ?_, ?_⟩
  · rw [hquiet.task]
    exact hon
  · rw [hpick]

theorem schedule_inv (h : Inv s) (preempt signalPending : Bool) :
    Inv (schedule other s preempt signalPending) := by
  obtain ⟨next, v, hquiet, hon, heq⟩ := schedule_eq other h preempt signalPending
  rw [heq]
  exact ((deactivatePrev_ready other h preempt signalPending).of_quiet hquiet).switch hon

theorem schedulerTick_inv (h : Inv s) : Inv (schedulerTick other s) := by
  have hown := taskTick_owns other s s.curr
  refine h.of_keeps hown.keeps ?_ (Or.inl hown.self.schedClass)
  unfold schedulerTick taskTick
  split
  · rename_i hts
    exact taskTickTs_linked h.linked h.curr hts
  · rename_i hrt
    exact taskTickRt_linked other h.linked h.curr hrt
  · exact h.linked.of_quiet (callOther_quiet other s _ _)

variable (other) in
theorem yieldTask_inv (h : Inv s) : Inv (yieldTask other s) := by
  have hown := yieldTask_owns other s
  refine h.of_keeps hown.keeps ?_ (Or.inl hown.self.schedClass)
  unfold yieldTask
  split
  · rename_i hts
    exact tsListMoveTail_linked h.linked h.curr hts
  · rename_i hrt
    exact requeueTaskRt_linked h.linked h.curr hrt
  · exact h.linked.of_quiet (callOther_quiet other s _ _)

theorem doSchedYield_inv (h : Inv s) (signalPending : Bool) :
    Inv (doSchedYield other s signalPending) :=
  schedule_inv (yieldTask_inv other h) false signalPending

theorem doTaskDead_inv (h : Inv s) (hidle : s.curr ≠ s.idle) : Inv (doTaskDead other s) :=
  schedule_inv (h.setState (by simp) fun heq => absurd heq hidle) false false

end Sched
