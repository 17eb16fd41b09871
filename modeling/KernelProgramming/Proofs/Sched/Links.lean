/-
Who is linked where.

`Linked on saved s` says that the queues of the two classes hold exactly the tasks
they should, each once, where `on` tells which tasks count as queued.  Between
operations `on` is `p->on_rq`.  In the middle of one it is not: a task that has
been dequeued keeps `on_rq` until its caller has finished with it, and a task that
is being woken is linked before `on_rq` is set.

`saved` is the one task that may be on a real-time list although it does not count
as queued.  A dequeue with `DEQUEUE_SAVE` and without `DEQUEUE_MOVE` leaves the
node where it is, for the matching enqueue to find.
-/
import KernelProgramming.Proofs.Sched.Ranges

namespace Sched

variable {X : Type}

/-- The queues hold the tasks that count as queued, each once, and nothing else. -/
structure Linked (on : TaskId → Bool) (saved : Option TaskId) (s : Sys X) : Prop where
  tasks : ∀ q, TaskOK (s.task q)
  ts : ∀ q, Levels.count s.tsQueue q
    = if on q = true ∧ (s.task q).schedClass = .ts then 1 else 0
  rt : ∀ q, Levels.count s.rtQueue q
    = if (on q = true ∧ (s.task q).schedClass = .rt) ∨ saved = some q then 1 else 0
  rtOn : ∀ q, (s.task q).rt.onRq = true ↔ on q = true ∧ (s.task q).schedClass = .rt
  faults : s.faults = []

/-- The queues agree with `p->on_rq`. -/
def LinkedOnRq (s : Sys X) : Prop := Linked (fun q => (s.task q).onRq) none s

/-- `on`, with `p` taken out. -/
def without (on : TaskId → Bool) (p : TaskId) : TaskId → Bool := Function.update on p false

/-- `on`, with `p` put in. -/
def including (on : TaskId → Bool) (p : TaskId) : TaskId → Bool := Function.update on p true

@[simp] theorem without_self (on : TaskId → Bool) (p : TaskId) : without on p p = false :=
  Function.update_self ..

@[simp] theorem including_self (on : TaskId → Bool) (p : TaskId) : including on p p = true :=
  Function.update_self ..

theorem without_of_ne (on : TaskId → Bool) {p q : TaskId} (h : q ≠ p) : without on p q = on q :=
  Function.update_of_ne h ..

theorem including_of_ne (on : TaskId → Bool) {p q : TaskId} (h : q ≠ p) :
    including on p q = on q :=
  Function.update_of_ne h ..

theorem including_without (on : TaskId → Bool) {p : TaskId} (h : on p = true) :
    including (without on p) p = on := by
  unfold including without
  rw [Function.update_idem, ← h, Function.update_eq_self]

theorem without_eq_self (on : TaskId → Bool) {p : TaskId} (h : on p = false) :
    without on p = on := by
  unfold without
  rw [← h, Function.update_eq_self]

variable {on : TaskId → Bool} {saved : Option TaskId} {s s' : Sys X} {p : TaskId}

theorem Linked.of_quiet (h : Linked on saved s) (hq : Quiet s s') : Linked on saved s' := by
  refine ⟨?_, ?_, ?_, ?_, ?_⟩
  · rw [hq.task]; exact h.tasks
  · rw [hq.task, hq.tsQueue]; exact h.ts
  · rw [hq.task, hq.rtQueue]; exact h.rt
  · rw [hq.task]; exact h.rtOn
  · rw [hq.faults]; exact h.faults

/-- A task that does not count as queued may be rewritten, as long as its `rt` entity says
it is not queued either. -/
theorem Linked.modify (h : Linked on saved s) (hp : on p = false) {f : TaskStruct → TaskStruct}
    (hok : TaskOK (f (s.task p))) (hrt : (f (s.task p)).rt.onRq = false) :
    Linked on saved (s.modify p f) := by
  refine ⟨?_, ?_, ?_, ?_, h.faults⟩
  · intro q
    by_cases hq : q = p
    · subst hq
      rw [s.modify_task_self]
      exact hok
    · rw [s.modify_task_of_ne f hq]
      exact h.tasks q
  · intro q
    by_cases hq : q = p
    · subst hq
      have := h.ts q
      simp only [hp, Bool.false_eq_true, false_and, if_false] at this ⊢
      exact this
    · rw [s.modify_task_of_ne f hq]
      exact h.ts q
  · intro q
    by_cases hq : q = p
    · subst hq
      have := h.rt q
      simp only [hp, Bool.false_eq_true, false_and, false_or] at this ⊢
      exact this
    · rw [s.modify_task_of_ne f hq]
      exact h.rt q
  · intro q
    by_cases hq : q = p
    · subst hq
      rw [s.modify_task_self, hrt, hp]
      simp
    · rw [s.modify_task_of_ne f hq]
      exact h.rtOn q

/-- Fields that neither the queues nor the ranges depend on may be rewritten at any time. -/
theorem Linked.modify_same (h : Linked on saved s) {f : TaskStruct → TaskStruct}
    (hok : TaskOK (f (s.task p))) (hcls : (f (s.task p)).schedClass = (s.task p).schedClass)
    (hrt : (f (s.task p)).rt = (s.task p).rt) : Linked on saved (s.modify p f) := by
  have hc : ∀ q, ((s.modify p f).task q).schedClass = (s.task q).schedClass := by
    intro q
    by_cases hq : q = p
    · subst hq
      rw [s.modify_task_self]
      exact hcls
    · rw [s.modify_task_of_ne f hq]
  have hr : ∀ q, ((s.modify p f).task q).rt = (s.task q).rt := by
    intro q
    by_cases hq : q = p
    · subst hq
      rw [s.modify_task_self]
      exact hrt
    · rw [s.modify_task_of_ne f hq]
  refine ⟨?_, ?_, ?_, ?_, h.faults⟩
  · intro q
    by_cases hq : q = p
    · subst hq
      rw [s.modify_task_self]
      exact hok
    · rw [s.modify_task_of_ne f hq]
      exact h.tasks q
  · intro q
    rw [hc q]
    exact h.ts q
  · intro q
    rw [hc q]
    exact h.rt q
  · intro q
    rw [hc q, hr q]
    exact h.rtOn q

/-! ### The time-sharing lists -/

theorem Linked.count_ts (h : Linked on saved s) (hp : on p = true)
    (hts : (s.task p).schedClass = .ts) : Levels.count s.tsQueue p ≠ 0 := by
  rw [h.ts p, if_pos ⟨hp, hts⟩]
  omega

theorem tsListDel_eq (hc : Levels.count s.tsQueue p ≠ 0) :
    tsListDel s p = { s with tsQueue := Levels.del s.tsQueue p } := by
  unfold tsListDel
  rw [if_neg hc, Sys.log_nil]

theorem tsListAddTail_eq {idx : Int} {i : Fin 40} (hi : tsLevel? idx = some i)
    (hc : Levels.count s.tsQueue p = 0) :
    tsListAddTail s p idx = { s with tsQueue := Levels.addTail s.tsQueue i p } := by
  unfold tsListAddTail
  rw [hi]
  simp only [hc, if_true, Sys.log_nil]

theorem dequeueTaskTs_linked (h : Linked on none s) (hp : on p = true)
    (hts : (s.task p).schedClass = .ts) : Linked (without on p) none (dequeueTaskTs s p) := by
  unfold dequeueTaskTs
  rw [tsListDel_eq (h.count_ts hp hts)]
  refine ⟨h.tasks, ?_, ?_, ?_, h.faults⟩
  · intro q
    show Levels.count (Levels.del s.tsQueue p) q = _
    rw [Levels.count_del]
    by_cases hq : q = p
    · subst hq
      simp
    · rw [if_neg hq, h.ts q, without_of_ne on hq]
  · intro q
    by_cases hq : q = p
    · subst hq
      show Levels.count s.rtQueue q = _
      rw [h.rt q]
      simp [hts]
    · rw [without_of_ne on hq]
      exact h.rt q
  · intro q
    by_cases hq : q = p
    · subst hq
      show (s.task q).rt.onRq = true ↔ _
      rw [h.rtOn q]
      simp [hts]
    · rw [without_of_ne on hq]
      exact h.rtOn q

/-- What `enqueue_task_ts` comes to for a task that is not linked. -/
theorem enqueueTaskTs_eq {i : Fin 40} (flags : QueueFlags)
    (hr : 100 ≤ (s.task p).prio ∧ (s.task p).prio ≤ 139)
    (hi : tsLevel? (139 - (s.task p).prio) = some i) (hc : Levels.count s.tsQueue p = 0) :
    enqueueTaskTs s p flags =
      { (if flags.wakeup then
          s.modify p fun t => { t with prio := (getNewPrio t.prio .sleep).1 } else s) with
        tsQueue := Levels.addTail s.tsQueue i p } := by
  unfold enqueueTaskTs
  by_cases hw : flags.wakeup = true
  · simp only [hw, if_true, (getNewPrio_range hr .sleep).1, Sys.log_nil]
    exact tsListAddTail_eq hi hc
  · simp only [hw, if_false, Bool.false_eq_true]
    exact tsListAddTail_eq hi hc

theorem enqueueTaskTs_linked (h : Linked on none s) (hp : on p = false)
    (hts : (s.task p).schedClass = .ts) (flags : QueueFlags) :
    Linked (including on p) none (enqueueTaskTs s p flags) := by
  have hr := (h.tasks p).ts_range hts
  obtain ⟨i, hi⟩ := tsLevel?_of_range hr
  have hc : Levels.count s.tsQueue p = 0 := by rw [h.ts p, if_neg (by simp [hp])]
  rw [enqueueTaskTs_eq flags hr hi hc]
  -- First the new priority of a wakeup, which no queue depends on.
  have h1 : Linked on none (if flags.wakeup then
      s.modify p fun t => { t with prio := (getNewPrio t.prio .sleep).1 } else s) := by
    split
    · exact h.modify_same ((h.tasks p).setTsPrio hts (getNewPrio_range hr .sleep).2) rfl rfl
    · exact h
  have hcls : ((if flags.wakeup then
      s.modify p fun t => { t with prio := (getNewPrio t.prio .sleep).1 } else s).task p).schedClass
        = .ts := by
    split
    · rw [s.modify_task_self]
      exact hts
    · exact hts
  have hq1 : (if flags.wakeup then
      s.modify p fun t => { t with prio := (getNewPrio t.prio .sleep).1 } else s).tsQueue
        = s.tsQueue := by
    split <;> rfl
  rw [← hq1]
  generalize (if flags.wakeup then
      s.modify p fun t => { t with prio := (getNewPrio t.prio .sleep).1 } else s) = s₁ at h1 hcls
  -- Then the link itself.
  refine ⟨h1.tasks, ?_, ?_, ?_, h1.faults⟩
  · intro q
    show Levels.count (Levels.addTail s₁.tsQueue i p) q = _
    rw [Levels.count_addTail, h1.ts q]
    by_cases hq : q = p
    · subst hq
      simp [hp, hcls]
    · rw [including_of_ne on hq]
      simp [hq]
  · intro q
    show Levels.count s₁.rtQueue q = _
    rw [h1.rt q]
    by_cases hq : q = p
    · subst hq
      simp [hcls]
    · rw [including_of_ne on hq]
  · intro q
    show (s₁.task q).rt.onRq = true ↔ _
    rw [h1.rtOn q]
    by_cases hq : q = p
    · subst hq
      simp [hcls]
    · rw [including_of_ne on hq]

/-- Moving a linked task to the tail of the list of its priority. -/
theorem tsListMoveTail_eq (hc : Levels.count s.tsQueue p ≠ 0) {idx : Int} {i : Fin 40}
    (hi : tsLevel? idx = some i) :
    tsListMoveTail s p idx = { s with tsQueue := Levels.moveTail s.tsQueue i p } := by
  unfold tsListMoveTail
  rw [tsListDel_eq hc]
  refine tsListAddTail_eq hi ?_
  show Levels.count (Levels.del s.tsQueue p) p = 0
  rw [Levels.count_del, if_pos rfl]

theorem tsListMoveTail_linked (h : Linked on saved s) (hp : on p = true)
    (hts : (s.task p).schedClass = .ts) :
    Linked on saved (tsListMoveTail s p (139 - (s.task p).prio)) := by
  obtain ⟨i, hi⟩ := tsLevel?_of_range ((h.tasks p).ts_range hts)
  rw [tsListMoveTail_eq (h.count_ts hp hts) hi]
  refine ⟨h.tasks, ?_, h.rt, h.rtOn, h.faults⟩
  intro q
  show Levels.count (Levels.moveTail s.tsQueue i p) q = _
  rw [Levels.count_moveTail]
  by_cases hq : q = p
  · subst hq
    simp [hp, hts]
  · rw [if_neg hq]
    exact h.ts q

/-- A task whose slice has run out, with its new priority and its new quantum. -/
def expired (t : TaskStruct) : TaskStruct :=
  { t with
    prio := (getNewPrio t.prio .expire).1
    ts := { timeSlice := (getNumTicks (getNewPrio t.prio .expire).1).1 } }

theorem TaskOK.expired {t : TaskStruct} (h : TaskOK t) (hts : t.schedClass = .ts) :
    TaskOK (expired t) := by
  have hnew := getNewPrio_range (h.ts_range hts) .expire
  exact (h.setTsPrio hts hnew.2).setSlice (getNumTicks_range hnew.2).2

/-- A tick that leaves something of the slice. -/
theorem taskTickTs_running (hpol : (s.task p).policy = .ts)
    (hslice : 2 ≤ (s.task p).ts.timeSlice ∧ (s.task p).ts.timeSlice ≤ 16) :
    taskTickTs s p
      = s.modify p fun t => { t with ts := { timeSlice := t.ts.timeSlice - 1 } } := by
  have hdec := decTimeSlice_of_pos (by omega : 1 ≤ (s.task p).ts.timeSlice) hslice.2
  unfold taskTickTs
  rw [if_neg (by simpa using hpol), if_neg (by omega : ¬(s.task p).ts.timeSlice = 0), Sys.log_nil]
  dsimp only
  rw [if_pos (by rw [hdec]; omega), hdec]
  rfl

/-- A tick that uses the slice up. -/
theorem taskTickTs_expired (hpol : (s.task p).policy = .ts)
    (hrange : 100 ≤ (s.task p).prio ∧ (s.task p).prio ≤ 139)
    (hc : Levels.count s.tsQueue p ≠ 0) (hslice : (s.task p).ts.timeSlice = 1) {i : Fin 40}
    (hi : tsLevel? (139 - (expired (s.task p)).prio) = some i) :
    taskTickTs s p
      = { s.modify p expired with
          tsQueue := Levels.moveTail s.tsQueue i p
          needResched := true } := by
  have hnew := getNewPrio_range hrange .expire
  have hticks := getNumTicks_range hnew.2
  have hdec : decTimeSlice 1 = 0 := rfl
  -- Decrementing the slice and then resetting it is one rewrite of the task.
  have hmm : (s.modify p fun t => { t with ts := { t.ts with timeSlice := 0 } }).modify p
      (fun t => { t with
        prio := (getNewPrio (s.task p).prio .expire).1
        ts := { t.ts with
          timeSlice := (getNumTicks (getNewPrio (s.task p).prio .expire).1).1 } })
      = s.modify p expired := by
    simp [Sys.modify, expired]
  unfold taskTickTs expireTimeSlice
  rw [if_neg (by simpa using hpol), hslice, hdec]
  simp only [one_ne_zero, ne_eq, not_true_eq_false, if_false, Sys.log_nil, s.modify_task_self,
    hnew.1, hticks.1, List.append_nil]
  rw [hmm, s.modify_task_self]
  rw [tsListMoveTail_eq (s := s.modify p expired) hc hi]
  rfl

theorem taskTickTs_linked (h : Linked on saved s) (hp : on p = true)
    (hts : (s.task p).schedClass = .ts) : Linked on saved (taskTickTs s p) := by
  have hslice := (h.tasks p).slice
  by_cases hone : (s.task p).ts.timeSlice = 1
  · have hok := (h.tasks p).expired hts
    obtain ⟨i, hi⟩ := tsLevel?_of_range (hok.ts_range hts)
    have hlinked : Linked on saved (s.modify p expired) := h.modify_same hok rfl rfl
    have hcls : ((s.modify p expired).task p).schedClass = .ts := by
      rw [s.modify_task_self]
      exact hts
    have hmove := tsListMoveTail_linked hlinked hp hcls
    rw [s.modify_task_self, tsListMoveTail_eq (hlinked.count_ts hp hcls) hi] at hmove
    rw [taskTickTs_expired ((h.tasks p).tsPolicy hts) ((h.tasks p).ts_range hts)
      (h.count_ts hp hts) hone hi]
    exact hmove.of_quiet ⟨rfl, rfl, rfl, rfl, rfl, rfl, rfl⟩
  · rw [taskTickTs_running ((h.tasks p).tsPolicy hts) (by omega)]
    exact h.modify_same ((h.tasks p).setSlice (by omega)) rfl rfl

/-! ### The real-time lists -/

theorem dequeueTopRtRq_kept (s : Sys X) :
    (dequeueTopRtRq s).task = s.task ∧ (dequeueTopRtRq s).rtQueue = s.rtQueue := by
  unfold dequeueTopRtRq
  split <;> exact ⟨rfl, rfl⟩

theorem enqueueTopRtRq_kept (s : Sys X) :
    (enqueueTopRtRq s).task = s.task ∧ (enqueueTopRtRq s).rtQueue = s.rtQueue := by
  have h := enqueueTopRtRq_timed s
  exact ⟨h.task, h.rtQueue⟩

theorem incRtTasks_kept (s : Sys X) (p : TaskId) :
    (incRtTasks s p).task = s.task ∧ (incRtTasks s p).rtQueue = s.rtQueue := by
  unfold incRtTasks incRtPrio
  split <;> exact ⟨rfl, rfl⟩

theorem decRtTasks_kept (s : Sys X) (p : TaskId) :
    (decRtTasks s p).task = s.task ∧ (decRtTasks s p).rtQueue = s.rtQueue := by
  unfold decRtTasks decRtPrio
  split
  · split <;> exact ⟨rfl, rfl⟩
  · exact ⟨rfl, rfl⟩

/-- What a dequeue does to an entity that is queued. -/
theorem dequeueRtEntity_lists (flags : QueueFlags) (hon : (s.task p).rt.onRq = true) :
    ((dequeueRtEntity s p flags).task p).rt.onRq = false ∧
      (dequeueRtEntity s p flags).rtQueue
        = if moveEntity flags then Levels.del s.rtQueue p else s.rtQueue := by
  have htop := dequeueTopRtRq_kept s
  unfold dequeueRtEntity dequeueRtStack
  simp only
  rw [(enqueueTopRtRq_kept _).1, (enqueueTopRtRq_kept _).2, if_pos (by rw [htop.1]; exact hon)]
  unfold dequeueRtEntityOnce
  rw [(decRtTasks_kept _ p).1, (decRtTasks_kept _ p).2, Sys.modify_task_self]
  refine ⟨rfl, ?_⟩
  by_cases hm : moveEntity flags = true
  · rw [if_pos hm, if_pos hm, ← htop.2]
    rfl
  · rw [if_neg hm, if_neg hm]
    exact htop.2

/-- What an enqueue does to an entity that is not queued. -/
theorem enqueueTaskRt_lists (flags : QueueFlags) (hon : (s.task p).rt.onRq = false) {i : Fin 100}
    (hi : rtLevel? (s.task p).prio = some i) :
    ((enqueueTaskRt s p flags).task p).rt.onRq = true ∧
      (enqueueTaskRt s p flags).rtQueue
        = if moveEntity flags then
            if flags.head then Levels.addHead s.rtQueue i p else Levels.addTail s.rtQueue i p
          else s.rtQueue := by
  -- The timeout of a wakeup is the business of nobody here.
  have hone : ∀ u : Sys X, (u.task p).rt.onRq = false → rtLevel? (u.task p).prio = some i →
      ((enqueueRtEntity u p flags).task p).rt.onRq = true ∧
        (enqueueRtEntity u p flags).rtQueue
          = if moveEntity flags then
              if flags.head then Levels.addHead u.rtQueue i p else Levels.addTail u.rtQueue i p
            else u.rtQueue := by
    intro u hu hui
    have htop := dequeueTopRtRq_kept u
    unfold enqueueRtEntity dequeueRtStack
    simp only
    rw [(enqueueTopRtRq_kept _).1, (enqueueTopRtRq_kept _).2,
      if_neg (by rw [htop.1, hu]; simp)]
    unfold enqueueRtEntityOnce
    rw [(incRtTasks_kept _ p).1, (incRtTasks_kept _ p).2, Sys.modify_task_self]
    refine ⟨rfl, ?_⟩
    by_cases hm : moveEntity flags = true
    · rw [if_pos hm, if_pos hm]
      unfold enlistRtEntity
      rw [htop.1, hui]
      simp only [htop.2]
      rfl
    · rw [if_neg hm, if_neg hm]
      exact htop.2
  unfold enqueueTaskRt
  by_cases hw : flags.wakeup = true
  · simp only [hw, if_true]
    refine hone _ ?_ ?_
    · rw [s.modify_task_self]
      exact hon
    · rw [s.modify_task_self]
      exact hi
  · simp only [hw, if_false, Bool.false_eq_true]
    exact hone s hon hi

theorem rtLevel?_of_range {prio : Int} (h : 0 ≤ prio ∧ prio < 100) :
    ∃ i, rtLevel? prio = some i := by
  unfold rtLevel?
  rw [dif_pos h]
  exact ⟨_, rfl⟩

theorem OnlyRt.tasks {s s' : Sys X} (hrt : OnlyRt p s s') (h : ∀ q, TaskOK (s.task q)) :
    ∀ q, TaskOK (s'.task q) := by
  intro q
  exact (h q).of_sameTask (hrt.owns.sameTask q) (hrt.prio q) (hrt.ts q)

theorem OnlyRt.schedClass {s s' : Sys X} (hrt : OnlyRt p s s') (q : TaskId) :
    (s'.task q).schedClass = (s.task q).schedClass := (hrt.owns.sameTask q).schedClass

theorem dequeueRtEntity_linked (h : Linked on none s) (hp : on p = true)
    (hrt : (s.task p).schedClass = .rt) (flags : QueueFlags) :
    Linked (without on p) (if moveEntity flags then none else some p)
      (dequeueRtEntity s p flags) := by
  have honly := dequeueRtEntity_onlyRt s p flags
  obtain ⟨hoff, hqueue⟩ := dequeueRtEntity_lists flags ((h.rtOn p).mpr ⟨hp, hrt⟩)
  refine ⟨honly.tasks h.tasks, ?_, ?_, ?_, honly.faults.trans h.faults⟩
  · intro q
    rw [honly.tsQueue, honly.schedClass, h.ts q]
    by_cases hq : q = p
    · subst hq
      simp [hrt]
    · rw [without_of_ne on hq]
  · intro q
    rw [hqueue, honly.schedClass]
    have hcount := h.rt q
    by_cases hm : moveEntity flags = true
    · rw [if_pos hm, if_pos hm, Levels.count_del]
      by_cases hq : q = p
      · subst hq
        simp
      · rw [if_neg hq, without_of_ne on hq]
        exact hcount
    · rw [if_neg hm, if_neg hm, hcount]
      by_cases hq : q = p
      · subst hq
        simp [hp, hrt]
      · rw [without_of_ne on hq]
        simp [Ne.symm hq]
  · intro q
    by_cases hq : q = p
    · subst hq
      rw [hoff]
      simp
    · rw [honly.frame q hq, without_of_ne on hq]
      exact h.rtOn q

theorem dequeueTaskRt_linked (other : OtherClasses X) (h : Linked on none s) (hp : on p = true)
    (hrt : (s.task p).schedClass = .rt) (flags : QueueFlags) :
    Linked (without on p) (if moveEntity flags then none else some p)
      (dequeueTaskRt other s p flags) := by
  have htimed := updateCurrRt_timed other s
  refine dequeueRtEntity_linked (h.of_quiet htimed.toQuiet) hp ?_ flags
  rw [htimed.task]
  exact hrt

theorem enqueueTaskRt_linked (h : Linked on saved s) (hp : on p = false)
    (hrt : (s.task p).schedClass = .rt) (flags : QueueFlags)
    (hsaved : saved = if moveEntity flags then none else some p) :
    Linked (including on p) none (enqueueTaskRt s p flags) := by
  have honly := enqueueTaskRt_onlyRt s p flags
  have hrange : 0 ≤ (s.task p).prio ∧ (s.task p).prio < 100 := by
    have hcls := (h.tasks p).cls
    rw [hrt] at hcls
    exact hcls
  obtain ⟨i, hi⟩ := rtLevel?_of_range hrange
  have hoff : (s.task p).rt.onRq = false := by
    have := h.rtOn p
    simpa [hp] using this
  obtain ⟨hon, hqueue⟩ := enqueueTaskRt_lists flags hoff hi
  refine ⟨honly.tasks h.tasks, ?_, ?_, ?_, honly.faults.trans h.faults⟩
  · intro q
    rw [honly.tsQueue, honly.schedClass, h.ts q]
    by_cases hq : q = p
    · subst hq
      simp [hrt]
    · rw [including_of_ne on hq]
  · intro q
    rw [hqueue, honly.schedClass]
    have hcount := h.rt q
    by_cases hm : moveEntity flags = true
    · rw [if_pos hm] at hsaved ⊢
      have hadd : Levels.count (if flags.head then Levels.addHead s.rtQueue i p
          else Levels.addTail s.rtQueue i p) q
            = Levels.count s.rtQueue q + if q = p then 1 else 0 := by
        split
        · exact Levels.count_addHead ..
        · exact Levels.count_addTail ..
      rw [hadd, hcount, hsaved]
      by_cases hq : q = p
      · subst hq
        simp [hp, hrt]
      · rw [including_of_ne on hq]
        simp [hq]
    · rw [if_neg hm] at hsaved ⊢
      rw [hcount, hsaved]
      by_cases hq : q = p
      · subst hq
        simp [hrt]
      · rw [including_of_ne on hq]
        simp [Ne.symm hq]
  · intro q
    by_cases hq : q = p
    · subst hq
      rw [hon, honly.schedClass, hrt]
      simp
    · rw [honly.frame q hq, including_of_ne on hq]
      exact h.rtOn q

theorem requeueTaskRt_linked (h : Linked on saved s) (hp : on p = true)
    (hrt : (s.task p).schedClass = .rt) : Linked on saved (requeueTaskRt s p) := by
  unfold requeueTaskRt
  split
  · split
    · exact h
    · refine ⟨h.tasks, h.ts, ?_, h.rtOn, h.faults⟩
      intro q
      show Levels.count (Levels.moveTail s.rtQueue _ p) q = _
      rw [Levels.count_moveTail]
      by_cases hq : q = p
      · subst hq
        simp [hp, hrt]
      · rw [if_neg hq]
        exact h.rt q
  · exact h

theorem taskTickRt_linked (other : OtherClasses X) (h : Linked on saved s) (hp : on p = true)
    (hrt : (s.task p).schedClass = .rt) : Linked on saved (taskTickRt other s p) := by
  -- The slice of a round-robin task is in no invariant.
  have hslice : ∀ (u : Sys X) (n : Nat), Linked on saved u →
      Linked on saved (u.modify p fun t => { t with rt := { t.rt with timeSlice := n } }) := by
    intro u n hu
    have honly := modifyRt_onlyRt u p fun r => { r with timeSlice := n }
    have hon : ∀ q, ((u.modify p fun t =>
        { t with rt := { t.rt with timeSlice := n } }).task q).rt.onRq = (u.task q).rt.onRq := by
      intro q
      by_cases hq : q = p
      · subst hq
        rw [u.modify_task_self]
      · rw [honly.frame q hq]
    refine ⟨honly.tasks hu.tasks, ?_, ?_, ?_, hu.faults⟩
    · intro q
      rw [honly.schedClass]
      exact hu.ts q
    · intro q
      rw [honly.schedClass]
      exact hu.rt q
    · intro q
      rw [honly.schedClass, hon q]
      exact hu.rtOn q
  have htimed := updateCurrRt_timed other s
  replace h := h.of_quiet htimed.toQuiet
  rw [← htimed.task] at hrt
  unfold taskTickRt
  generalize updateCurrRt other s = s at h hrt
  simp only
  split
  · exact h
  · have h1 := hslice s (((s.task p).rt.timeSlice + (2 ^ 32 - 1)) % 2 ^ 32) h
    have h2 := hslice _ other.rrTimeslice h1
    split
    · exact h1
    · split
      · refine (requeueTaskRt_linked h2 hp ?_).of_quiet (reschedCurr_quiet _)
        rw [Sys.modify_task_self, Sys.modify_task_self]
        exact hrt
      · exact h2

end Sched
