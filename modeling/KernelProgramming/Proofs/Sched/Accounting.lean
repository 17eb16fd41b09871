/-
Who counts the runnable tasks?

`rq->nr_running` is kept by the classes.  `rt.c` adds and subtracts its tasks in
`enqueue_top_rt_rq` and `dequeue_top_rt_rq`, and the fair class does the same; `ts.c`
does neither.  So the counter is the number of fair tasks and, unless the CPU is
throttled, of real-time tasks, whatever the sequence of calls.  Where nothing is ever
throttled it is the number of all tasks exactly when no time-sharing task is queued.

Two readers of the counter go wrong.  `idle_cpu` takes a CPU with time-sharing tasks
for idle, and `pick_next_task` takes its shortcut past the time-sharing class.
-/
import Mathlib.Data.Set.Card
import KernelProgramming.Proofs.Sched.Reachable

namespace Sched

variable {X : Type} {other : OtherClasses X} {s s' t : Sys X} {p : TaskId}

/-- The queued tasks of a class. -/
def queuedOf (s : Sys X) (cls : SchedClass) : Set TaskId :=
  {q | (s.task q).onRq = true ∧ (s.task q).schedClass = cls}

/-- The fair class adds and removes its own tasks, in both counters. -/
structure FairCounts (other : OtherClasses X) : Prop where
  enqueue : ∀ s p flags,
    (other.hook .fair (.enqueueTask p flags) s).nrRunning = s.nrRunning + 1 ∧
    (other.hook .fair (.enqueueTask p flags) s).hNrRunning = s.hNrRunning + 1
  dequeue : ∀ s p flags,
    (other.hook .fair (.dequeueTask p flags) s).nrRunning = s.nrRunning - 1 ∧
    (other.hook .fair (.dequeueTask p flags) s).hNrRunning = s.hNrRunning - 1

/-- A runqueue with nothing on it but the idle task. -/
structure EmptyRq (s : Sys X) : Prop where
  tsQueue : s.tsQueue = initTsRq
  counters : s.nrRunning = 0 ∧ s.hNrRunning = 0 ∧ s.rtNrRunning = 0 ∧ s.rtQueued = false
  unqueued : ∀ q, (s.task q).onRq = true → q = s.idle
  rtOff : ∀ q, (s.task q).rt.onRq = false
  idle : (s.task s.idle).schedClass = .idle

/-- `rq->nr_running` with `rest` tasks of other classes: the real-time tasks are in it as long as
the CPU is not throttled. -/
structure RtCounted (rest : Nat) (s : Sys X) : Prop where
  queued : s.rtQueued = true ↔ s.rtNrRunning ≠ 0 ∧ s.rtThrottled = false
  total : s.nrRunning = rest + if s.rtQueued then s.rtNrRunning else 0

/-- What the counters count, whatever the calls. -/
structure Counts (s : Sys X) : Prop where
  ts : ∀ q, Levels.count s.tsQueue q
    = if (s.task q).onRq = true ∧ (s.task q).schedClass = .ts then 1 else 0
  rtOn : ∀ q, (s.task q).rt.onRq = true ↔ (s.task q).onRq = true ∧ (s.task q).schedClass = .rt
  rt : s.rtNrRunning = (queuedOf s .rt).ncard
  fair : s.hNrRunning = (queuedOf s .fair).ncard
  counted : RtCounted s.hNrRunning s
  classes : ∀ q, (s.task q).onRq = true → q ≠ s.idle →
    (s.task q).schedClass = .ts ∨ (s.task q).schedClass = .rt ∨ (s.task q).schedClass = .fair
  idle : (s.task s.idle).schedClass = .idle
  finite : {q | (s.task q).onRq = true}.Finite

theorem Counts.finite_of (h : Counts s) (cls : SchedClass) : (queuedOf s cls).Finite :=
  h.finite.subset fun _ hq => hq.1

theorem EmptyRq.counts (h : EmptyRq s) : Counts s := by
  obtain ⟨hnr, hh, hrt, hrtq⟩ := h.counters
  have hnone : ∀ cls, cls ≠ .idle → queuedOf s cls = ∅ := by
    intro cls hcls
    ext q
    simp only [queuedOf, Set.mem_ofPred_eq, Set.mem_empty_iff_false, iff_false, not_and]
    intro hon heq
    rw [h.unqueued q hon, h.idle] at heq
    exact hcls heq.symm
  have hnot : ∀ q cls, cls ≠ .idle → ¬((s.task q).onRq = true ∧ (s.task q).schedClass = cls) := by
    intro q cls hcls hq
    have hmem : q ∈ queuedOf s cls := hq
    rw [hnone cls hcls] at hmem
    exact hmem
  refine ⟨?_, ?_, ?_, ?_, ⟨?_, ?_⟩, ?_, h.idle, ?_⟩
  · intro q
    rw [h.tsQueue, if_neg (hnot q .ts (by simp))]
    exact Levels.count_empty q
  · intro q
    rw [h.rtOff q]
    simpa using hnot q .rt (by simp)
  · rw [hrt, hnone .rt (by simp), Set.ncard_empty]
  · rw [hh, hnone .fair (by simp), Set.ncard_empty]
  · rw [hrtq, hrt]
    simp
  · rw [hnr, hh, hrtq]
    rfl
  · intro q hon hne
    exact absurd (h.unqueued q hon) hne
  · refine (Set.finite_singleton s.idle).subset ?_
    intro q hon
    exact h.unqueued q hon

/-! ### The counters of `rt.c` -/

section Counters

variable {rest : Nat}

theorem dequeueTopRtRq_counts
    (htotal : s.nrRunning = rest + if s.rtQueued then s.rtNrRunning else 0) :
    (dequeueTopRtRq s).rtNrRunning = s.rtNrRunning ∧ (dequeueTopRtRq s).rtQueued = false ∧
      (dequeueTopRtRq s).nrRunning = rest := by
  unfold dequeueTopRtRq
  cases hq : s.rtQueued with
  | true =>
      rw [hq, if_pos rfl] at htotal
      refine ⟨rfl, rfl, ?_⟩
      show s.nrRunning - s.rtNrRunning = rest
      omega
  | false =>
      rw [hq] at htotal
      exact ⟨rfl, hq, htotal⟩

/-- Throttling takes the tasks off the runqueue. -/
theorem updateCurrRt_queued (other : OtherClasses X)
    (h : s.rtQueued = true ↔ s.rtNrRunning ≠ 0 ∧ s.rtThrottled = false) :
    (updateCurrRt other s).rtQueued = true ↔
      (updateCurrRt other s).rtNrRunning ≠ 0 ∧ (updateCurrRt other s).rtThrottled = false := by
  rcases updateCurrRt_cases other s with ⟨mark, heq⟩ | heq | heq
  · rw [heq]
    exact h
  · rw [heq]
    exact h
  · rw [heq]
    unfold dequeueTopRtRq
    cases hq : s.rtQueued <;> simp [Sys.reschedCurr, subNrRunning]

theorem enqueueTopRtRq_queued (hq : s.rtQueued = false) :
    (enqueueTopRtRq s).rtQueued = true ↔
      (enqueueTopRtRq s).rtNrRunning ≠ 0 ∧ (enqueueTopRtRq s).rtThrottled = false := by
  unfold enqueueTopRtRq
  rw [if_neg (by simp [hq])]
  split
  · rename_i hthr
    simp [hq, hthr]
  · rename_i hthr
    split
    · rename_i hne
      exact iff_of_true rfl ⟨hne, by simpa [addNrRunning] using hthr⟩
    · rename_i hzero
      simp [hq, not_not.mp hzero]

theorem schedRtRqEnqueue_queued (hq : s.rtQueued = false) :
    (schedRtRqEnqueue s).rtQueued = true ↔
      (schedRtRqEnqueue s).rtNrRunning ≠ 0 ∧ (schedRtRqEnqueue s).rtThrottled = false := by
  unfold schedRtRqEnqueue
  split
  · rename_i hzero
    simp [hq, hzero]
  · exact enqueueTopRtRq_queued hq

/-- What the period timer does about the tasks of the CPU: nothing, or it puts back those that are
not on the runqueue. -/
theorem doSchedRtPeriodTimer_cases (other : OtherClasses X)
    (h : s.rtQueued = true ↔ s.rtNrRunning ≠ 0 ∧ s.rtThrottled = false) :
    (∃ x mark, doSchedRtPeriodTimer other s = { s with priv := x, needResched := mark }) ∨
      (s.rtQueued = false ∧ ∃ x, doSchedRtPeriodTimer other s
        = schedRtRqEnqueue { s with priv := x, rtThrottled := false }) := by
  have hsame : s.rtThrottled = false → ∀ x : X,
      { s with priv := x } = { s with priv := x, rtThrottled := false } := by
    intro hthr x
    rw [← hthr]
  unfold doSchedRtPeriodTimer
  simp only
  split
  · split
    · rename_i hthr
      refine Or.inr ⟨?_, _, rfl⟩
      rw [← Bool.not_eq_true, h, hthr.1]
      simp
    · exact Or.inl ⟨_, s.needResched, rfl⟩
  · split
    · exact Or.inl ⟨_, s.needResched, rfl⟩
    · rename_i hthr
      by_cases hq : s.rtQueued = true
      · refine Or.inl ⟨(other.rtPeriod s).priv, true, ?_⟩
        unfold schedRtRqEnqueue enqueueTopRtRq
        rw [if_neg (h.mp hq).1, if_pos hq]
        rfl
      · exact Or.inr ⟨by simpa using hq, _, by rw [hsame (by simpa using hthr)]⟩

theorem doSchedRtPeriodTimer_queued (other : OtherClasses X)
    (h : s.rtQueued = true ↔ s.rtNrRunning ≠ 0 ∧ s.rtThrottled = false) :
    (doSchedRtPeriodTimer other s).rtQueued = true ↔
      (doSchedRtPeriodTimer other s).rtNrRunning ≠ 0 ∧
        (doSchedRtPeriodTimer other s).rtThrottled = false := by
  rcases doSchedRtPeriodTimer_cases other h with ⟨x, mark, heq⟩ | ⟨hq, x, heq⟩
  · rw [heq]
    exact h
  · rw [heq]
    exact schedRtRqEnqueue_queued hq

theorem enqueueTopRtRq_counted (hq : s.rtQueued = false) (hnr : s.nrRunning = rest) :
    RtCounted rest (enqueueTopRtRq s) ∧ (enqueueTopRtRq s).rtNrRunning = s.rtNrRunning := by
  refine ⟨⟨enqueueTopRtRq_queued hq, ?_⟩, (enqueueTopRtRq_timed s).rtNrRunning⟩
  unfold enqueueTopRtRq
  rw [if_neg (by simp [hq])]
  split
  · rw [hq, hnr]
    rfl
  · split
    · show s.nrRunning + s.rtNrRunning = rest + if true then s.rtNrRunning else 0
      rw [hnr, if_pos rfl]
    · rw [hq, hnr]
      rfl

theorem RtCounted.updateCurrRt (other : OtherClasses X) (h : RtCounted rest s) :
    RtCounted rest (updateCurrRt other s) := by
  refine ⟨updateCurrRt_queued other h.queued, ?_⟩
  rcases updateCurrRt_cases other s with ⟨mark, heq⟩ | heq | heq
  · rw [heq]
    exact h.total
  · rw [heq]
    exact h.total
  · rw [heq]
    obtain ⟨-, hq, hnr⟩ := dequeueTopRtRq_counts
      (s := { s with priv := (other.rtAccount s).priv, rtThrottled := true }) h.total
    generalize dequeueTopRtRq _ = u at hq hnr
    show u.nrRunning = rest + if u.rtQueued then u.rtNrRunning else 0
    rw [hq, hnr]
    rfl

/-- The period timer puts the tasks of a throttled CPU back, and those of another are there. -/
theorem RtCounted.doSchedRtPeriodTimer (other : OtherClasses X) (h : RtCounted rest s) :
    RtCounted rest (doSchedRtPeriodTimer other s) := by
  refine ⟨doSchedRtPeriodTimer_queued other h.queued, ?_⟩
  have htotal := h.total
  rcases doSchedRtPeriodTimer_cases other h.queued with ⟨x, mark, heq⟩ | ⟨hq, x, heq⟩
  · rw [heq]
    exact htotal
  · rw [hq] at htotal
    rw [heq]
    unfold schedRtRqEnqueue
    split
    · rename_i hzero
      show s.nrRunning = rest + if s.rtQueued then s.rtNrRunning else 0
      rw [hq]
      exact htotal
    · exact (enqueueTopRtRq_counted
        (s := { s with priv := x, rtThrottled := false }) hq htotal).1.total

/-- The linking half of an enqueue or a dequeue counts nothing. -/
theorem enqueueRtEntityOnce_counts (s : Sys X) (p : TaskId) (flags : QueueFlags) :
    (enqueueRtEntityOnce s p flags).rtNrRunning = s.rtNrRunning + 1 ∧
      (enqueueRtEntityOnce s p flags).rtQueued = s.rtQueued ∧
      (enqueueRtEntityOnce s p flags).nrRunning = s.nrRunning := by
  unfold enqueueRtEntityOnce incRtTasks incRtPrio enlistRtEntity
  dsimp only
  repeat' split
  all_goals exact ⟨rfl, rfl, rfl⟩

theorem dequeueRtEntityOnce_counts (s : Sys X) (p : TaskId) (flags : QueueFlags) :
    (dequeueRtEntityOnce s p flags).rtNrRunning = s.rtNrRunning - 1 ∧
      (dequeueRtEntityOnce s p flags).rtQueued = s.rtQueued ∧
      (dequeueRtEntityOnce s p flags).nrRunning = s.nrRunning := by
  unfold dequeueRtEntityOnce decRtTasks decRtPrio delistRtEntity
  dsimp only
  repeat' split
  all_goals exact ⟨rfl, rfl, rfl⟩

theorem enqueueTaskRt_counts (hon : (s.task p).rt.onRq = false) (h : RtCounted rest s)
    (flags : QueueFlags) :
    RtCounted rest (enqueueTaskRt s p flags) ∧
      (enqueueTaskRt s p flags).rtNrRunning = s.rtNrRunning + 1 := by
  -- The timeout of a wakeup is not counted either.
  have hone : ∀ u : Sys X, (u.task p).rt.onRq = false → RtCounted rest u →
      u.rtNrRunning = s.rtNrRunning → RtCounted rest (enqueueRtEntity u p flags) ∧
        (enqueueRtEntity u p flags).rtNrRunning = s.rtNrRunning + 1 := by
    intro u hu hcounted hrt
    obtain ⟨hrt1, hq1, hnr1⟩ := dequeueTopRtRq_counts hcounted.total
    have hoff : ¬((dequeueTopRtRq u).task p).rt.onRq = true := by
      rw [(dequeueTopRtRq_kept u).1, hu]
      simp
    unfold enqueueRtEntity dequeueRtStack
    simp only
    rw [if_neg hoff]
    obtain ⟨hrt2, hq2, hnr2⟩ := enqueueRtEntityOnce_counts (dequeueTopRtRq u) p flags
    obtain ⟨hcounted3, hrt3⟩ := enqueueTopRtRq_counted (hq2.trans hq1) (hnr2.trans hnr1)
    refine ⟨hcounted3, ?_⟩
    rw [hrt3, hrt2, hrt1, hrt]
  unfold enqueueTaskRt
  by_cases hw : flags.wakeup = true
  · simp only [hw, if_true]
    refine hone _ ?_ ⟨h.queued, h.total⟩ rfl
    rw [s.modify_task_self]
    exact hon
  · simp only [hw, if_false, Bool.false_eq_true]
    exact hone s hon h rfl

theorem dequeueRtEntity_counts (hon : (s.task p).rt.onRq = true) (h : RtCounted rest s)
    (flags : QueueFlags) :
    RtCounted rest (dequeueRtEntity s p flags) ∧
      (dequeueRtEntity s p flags).rtNrRunning = s.rtNrRunning - 1 := by
  obtain ⟨hrt1, hq1, hnr1⟩ := dequeueTopRtRq_counts h.total
  unfold dequeueRtEntity dequeueRtStack
  simp only
  rw [if_pos (by rw [(dequeueTopRtRq_kept s).1]; exact hon)]
  obtain ⟨hrt2, hq2, hnr2⟩ := dequeueRtEntityOnce_counts (dequeueTopRtRq s) p flags
  obtain ⟨hcounted3, hrt3⟩ := enqueueTopRtRq_counted (hq2.trans hq1) (hnr2.trans hnr1)
  refine ⟨hcounted3, ?_⟩
  rw [hrt3, hrt2, hrt1]

end Counters

/-! ### The sets of queued tasks -/

/-- Marking a task as queued adds it to the tasks of its class. -/
theorem queuedOf_insert (hown : Owns p s s') (hoff : (s.task p).onRq = false) (cls : SchedClass) :
    queuedOf (s'.modify p fun t => { t with onRq := true }) cls
      = if (s.task p).schedClass = cls then insert p (queuedOf s cls) else queuedOf s cls := by
  ext q
  by_cases hq : q = p
  · subst hq
    split <;> rename_i hcls <;> simp [queuedOf, hown.self.schedClass, hcls, hoff]
  · have htask : (s'.modify p fun t => { t with onRq := true }).task q = s.task q := by
      rw [s'.modify_task_of_ne _ hq, hown.frame q hq]
    split <;> simp [queuedOf, htask, hq]

theorem ncard_queuedOf_insert (h : Counts s) (hown : Owns p s s')
    (hoff : (s.task p).onRq = false) (cls : SchedClass) :
    (queuedOf (s'.modify p fun t => { t with onRq := true }) cls).ncard
      = (queuedOf s cls).ncard + if (s.task p).schedClass = cls then 1 else 0 := by
  have hnot : p ∉ queuedOf s cls := by
    intro hmem
    have hon := hmem.1
    rw [hoff] at hon
    simp at hon
  rw [queuedOf_insert hown hoff]
  split
  · exact Set.ncard_insert_of_notMem hnot (h.finite_of cls)
  · rfl

/-- Clearing the mark takes it out again. -/
theorem queuedOf_erase (hown : Owns p s s') (cls : SchedClass) :
    queuedOf (s'.modify p fun t => { t with onRq := false }) cls = queuedOf s cls \ {p} := by
  ext q
  by_cases hq : q = p
  · subst hq
    simp [queuedOf]
  · have htask : (s'.modify p fun t => { t with onRq := false }).task q = s.task q := by
      rw [s'.modify_task_of_ne _ hq, hown.frame q hq]
    simp [queuedOf, htask, hq]

theorem ncard_queuedOf_erase (hown : Owns p s s') (hon : (s.task p).onRq = true)
    (cls : SchedClass) :
    (queuedOf (s'.modify p fun t => { t with onRq := false }) cls).ncard
      = (queuedOf s cls).ncard - if (s.task p).schedClass = cls then 1 else 0 := by
  rw [queuedOf_erase hown]
  split
  · rename_i hcls
    exact Set.ncard_sdiff_singleton_of_mem ⟨hon, hcls⟩
  · rename_i hcls
    rw [Set.sdiff_singleton_eq_self]
    · rfl
    · intro hmem
      exact hcls hmem.2

/-! ### What one call does -/

theorem enqueueTaskRt_onRq (s : Sys X) (p : TaskId) (flags : QueueFlags) :
    ((enqueueTaskRt s p flags).task p).rt.onRq = true := by
  unfold enqueueTaskRt enqueueRtEntity enqueueRtEntityOnce
  simp only
  rw [(enqueueTopRtRq_kept _).1, (incRtTasks_kept _ p).1, Sys.modify_task_self]

/-- The class of `p` gets one task more, in its lists and its counters; the time-sharing
class has no counter. -/
structure OneMore (p : TaskId) (s s' : Sys X) : Prop where
  ts : ∀ q, Levels.count s'.tsQueue q
    = Levels.count s.tsQueue q + if q = p ∧ (s.task p).schedClass = .ts then 1 else 0
  rtOn : (s'.task p).rt.onRq = true ↔ (s.task p).schedClass = .rt
  rt : s'.rtNrRunning = s.rtNrRunning + if (s.task p).schedClass = .rt then 1 else 0
  fair : s'.hNrRunning = s.hNrRunning + if (s.task p).schedClass = .fair then 1 else 0
  counted : RtCounted s'.hNrRunning s'

theorem enqueueTask_oneMore (hother : FairCounts other) (h : Counts s)
    (hoff : (s.task p).onRq = false)
    (hcls : ((s.task p).schedClass = .ts ∧ 100 ≤ (s.task p).prio ∧ (s.task p).prio ≤ 139) ∨
      (s.task p).schedClass = .rt ∨ (s.task p).schedClass = .fair) (flags : QueueFlags) :
    OneMore p s (enqueueTask other s p flags) := by
  have hrtoff : (s.task p).rt.onRq = false := by
    have := h.rtOn p
    simpa [hoff] using this
  have hcounted := h.counted
  rcases hcls with ⟨hts, hrange⟩ | hrt | hfair
  · -- Time-sharing: linked, and not counted.
    obtain ⟨i, hi⟩ := tsLevel?_of_range hrange
    have hc : Levels.count s.tsQueue p = 0 := by rw [h.ts p, if_neg (by simp [hoff])]
    unfold enqueueTask
    simp only [hts]
    rw [enqueueTaskTs_eq flags hrange hi hc]
    have hrtOn : ((if flags.wakeup then
        s.modify p fun t => { t with prio := (getNewPrio t.prio .sleep).1 } else s).task p).rt.onRq
          = false := by
      split
      · rw [s.modify_task_self]
        exact hrtoff
      · exact hrtoff
    refine ⟨?_, ?_, ?_, ?_, ?_⟩
    · intro q
      simp only [Levels.count_addTail, hts, and_true]
    · rw [show (s.task p).schedClass = .rt ↔ False by simp [hts]]
      simpa using hrtOn
    · split <;> simp [hts]
    · split <;> simp [hts]
    · split <;> exact ⟨hcounted.queued, hcounted.total⟩
  · -- Real-time: counted by `rt.c`.
    have honly := enqueueTaskRt_onlyRt s p flags
    obtain ⟨hcounted', hnr⟩ := enqueueTaskRt_counts hrtoff hcounted flags
    unfold enqueueTask
    simp only [hrt]
    refine ⟨?_, ?_, ?_, ?_, ?_⟩
    · intro q
      simp [honly.tsQueue, hrt]
    · exact iff_of_true (enqueueTaskRt_onRq s p flags) hrt
    · simp [hnr, hrt]
    · simp [honly.hNrRunning, hrt]
    · rw [honly.hNrRunning]
      exact hcounted'
  · -- Fair: counted by the fair class.
    obtain ⟨hnr, hh⟩ := hother.enqueue s p flags
    unfold enqueueTask
    simp only [hfair]
    refine ⟨?_, ?_, ?_, ?_, hcounted.queued, ?_⟩
    · intro q
      simp [hfair]
    · simpa [hfair] using hrtoff
    · simp [hfair]
    · show (other.hook .fair (.enqueueTask p flags) s).hNrRunning = _
      simp [hh, hfair]
    · have htotal := hcounted.total
      show (other.hook .fair (.enqueueTask p flags) s).nrRunning
        = (other.hook .fair (.enqueueTask p flags) s).hNrRunning
          + if s.rtQueued then s.rtNrRunning else 0
      omega

/-- The class of `p` has one task less. -/
structure OneLess (p : TaskId) (s s' : Sys X) : Prop where
  ts : ∀ q, Levels.count s'.tsQueue q
    = if q = p ∧ (s.task p).schedClass = .ts then 0 else Levels.count s.tsQueue q
  rtOn : (s'.task p).rt.onRq = false
  rt : s'.rtNrRunning = s.rtNrRunning - if (s.task p).schedClass = .rt then 1 else 0
  fair : s'.hNrRunning = s.hNrRunning - if (s.task p).schedClass = .fair then 1 else 0
  counted : RtCounted s'.hNrRunning s'

/-- A class with a queued task has counted it. -/
theorem Counts.pos (h : Counts s) (hon : (s.task p).onRq = true) :
    (queuedOf s (s.task p).schedClass).ncard ≠ 0 := by
  rw [Ne, Set.ncard_eq_zero (h.finite_of _)]
  intro hempty
  have hmem : p ∈ queuedOf s (s.task p).schedClass := ⟨hon, rfl⟩
  rw [hempty] at hmem
  exact hmem

theorem dequeueTask_oneLess (hother : FairCounts other) (h : Counts s)
    (hon : (s.task p).onRq = true) (hidle : p ≠ s.idle) (flags : QueueFlags) :
    OneLess p s (dequeueTask other s p flags) := by
  have hpos := h.pos hon
  have hcounted := h.counted
  rcases h.classes p hon hidle with hts | hrt | hfair
  · have hrtoff : (s.task p).rt.onRq = false := by
      have := h.rtOn p
      simpa [hts] using this
    unfold dequeueTask
    simp only [hts]
    refine ⟨?_, hrtoff, ?_, ?_, ⟨hcounted.queued, hcounted.total⟩⟩
    · intro q
      show Levels.count (Levels.del s.tsQueue p) q = _
      simp [Levels.count_del, hts]
    · simp [dequeueTaskTs, tsListDel, Sys.log, hts]
    · simp [dequeueTaskTs, tsListDel, Sys.log, hts]
  · rw [hrt, ← h.rt] at hpos
    have hrton := (h.rtOn p).mpr ⟨hon, hrt⟩
    have htimed := updateCurrRt_timed other s
    have honly := dequeueRtEntity_onlyRt (updateCurrRt other s) p flags
    rw [← htimed.task] at hrton
    obtain ⟨hcounted', hnr⟩ := dequeueRtEntity_counts hrton (hcounted.updateCurrRt other) flags
    unfold dequeueTask dequeueTaskRt
    simp only [hrt]
    refine ⟨?_, (dequeueRtEntity_lists flags hrton).1, ?_, ?_, ?_⟩
    · intro q
      simp [honly.tsQueue, htimed.tsQueue, hrt]
    · simp [hnr, htimed.rtNrRunning, hrt]
    · simp [honly.hNrRunning, htimed.hNrRunning, hrt]
    · rw [honly.hNrRunning, htimed.hNrRunning]
      exact hcounted'
  · rw [hfair, ← h.fair] at hpos
    have hrtoff : (s.task p).rt.onRq = false := by
      have := h.rtOn p
      simpa [hfair] using this
    obtain ⟨hnr, hh⟩ := hother.dequeue s p flags
    unfold dequeueTask
    simp only [hfair]
    refine ⟨?_, hrtoff, ?_, ?_, hcounted.queued, ?_⟩
    · intro q
      simp [hfair]
    · simp [hfair]
    · show (other.hook .fair (.dequeueTask p flags) s).hNrRunning = _
      simp [hh, hfair]
    · have htotal := hcounted.total
      show (other.hook .fair (.dequeueTask p flags) s).nrRunning
        = (other.hook .fair (.dequeueTask p flags) s).hNrRunning
          + if s.rtQueued then s.rtNrRunning else 0
      omega

/-- A call is about one task.  What is left to say after it is where that task is linked and
what the counters are. -/
theorem Counts.changed {u : Sys X} (h : Counts s) (hidle : p ≠ s.idle) (hsame : u.idle = s.idle)
    (htask : ∀ q, q ≠ p → u.task q = s.task q)
    (hts : ∀ q, q ≠ p → Levels.count u.tsQueue q = Levels.count s.tsQueue q)
    (hself : Levels.count u.tsQueue p
      = if (u.task p).onRq = true ∧ (u.task p).schedClass = .ts then 1 else 0)
    (hrtOn : (u.task p).rt.onRq = true ↔ (u.task p).onRq = true ∧ (u.task p).schedClass = .rt)
    (hrt : u.rtNrRunning = (queuedOf u .rt).ncard)
    (hfair : u.hNrRunning = (queuedOf u .fair).ncard)
    (hcounted : RtCounted u.hNrRunning u)
    (hcls : (u.task p).onRq = true → (u.task p).schedClass = .ts ∨ (u.task p).schedClass = .rt ∨
      (u.task p).schedClass = .fair) : Counts u := by
  refine ⟨?_, ?_, hrt, hfair, hcounted, ?_, ?_, ?_⟩
  · intro q
    by_cases hq : q = p
    · rw [hq]
      exact hself
    · rw [hts q hq, htask q hq]
      exact h.ts q
  · intro q
    by_cases hq : q = p
    · rw [hq]
      exact hrtOn
    · rw [htask q hq]
      exact h.rtOn q
  · intro q hon hne
    by_cases hq : q = p
    · rw [hq] at hon ⊢
      exact hcls hon
    · rw [htask q hq] at hon ⊢
      rw [hsame] at hne
      exact h.classes q hon hne
  · rw [hsame, htask _ (Ne.symm hidle)]
    exact h.idle
  · refine (h.finite.insert p).subset ?_
    intro q hon
    by_cases hq : q = p
    · exact Or.inl hq
    · refine Or.inr ?_
      have hon' : (u.task q).onRq = true := hon
      rw [htask q hq] at hon'
      exact hon'

theorem Counts.enqueued (h : Counts s) (hown : Owns p s s') (hoff : (s.task p).onRq = false)
    (hidle : p ≠ s.idle)
    (hcls : (s.task p).schedClass = .ts ∨ (s.task p).schedClass = .rt ∨
      (s.task p).schedClass = .fair) (hmore : OneMore p s s') :
    Counts (s'.modify p fun t => { t with onRq := true }) := by
  have hclass : ((s'.modify p fun t => { t with onRq := true }).task p).schedClass
      = (s.task p).schedClass := by
    rw [s'.modify_task_self]
    exact hown.self.schedClass
  have hon : ((s'.modify p fun t => { t with onRq := true }).task p).onRq = true := by
    rw [s'.modify_task_self]
  refine h.changed hidle hown.idle ?_ ?_ ?_ ?_ ?_ ?_ ⟨hmore.counted.queued, hmore.counted.total⟩ ?_
  · intro q hq
    rw [s'.modify_task_of_ne _ hq, hown.frame q hq]
  · intro q hq
    show Levels.count s'.tsQueue q = _
    rw [hmore.ts q, if_neg fun hboth => hq hboth.1, Nat.add_zero]
  · show Levels.count s'.tsQueue p = _
    rw [hmore.ts p, h.ts p, hclass, hon]
    simp [hoff]
  · rw [hclass, hon, s'.modify_task_self]
    show (s'.task p).rt.onRq = true ↔ _
    rw [hmore.rtOn]
    simp
  · show s'.rtNrRunning = _
    rw [hmore.rt, ncard_queuedOf_insert h hown hoff, h.rt]
  · show s'.hNrRunning = _
    rw [hmore.fair, ncard_queuedOf_insert h hown hoff, h.fair]
  · intro _
    rw [hclass]
    exact hcls

theorem Counts.dequeued (h : Counts s) (hown : Owns p s s') (hon : (s.task p).onRq = true)
    (hidle : p ≠ s.idle) (hless : OneLess p s s') :
    Counts (s'.modify p fun t => { t with onRq := false }) := by
  have hoff : ((s'.modify p fun t => { t with onRq := false }).task p).onRq = false := by
    rw [s'.modify_task_self]
  refine h.changed hidle hown.idle ?_ ?_ ?_ ?_ ?_ ?_ ⟨hless.counted.queued, hless.counted.total⟩ ?_
  · intro q hq
    rw [s'.modify_task_of_ne _ hq, hown.frame q hq]
  · intro q hq
    show Levels.count s'.tsQueue q = _
    rw [hless.ts q, if_neg fun hboth => hq hboth.1]
  · show Levels.count s'.tsQueue p = _
    rw [hless.ts p, h.ts p, hoff]
    simp [hon]
  · rw [hoff, s'.modify_task_self]
    show (s'.task p).rt.onRq = true ↔ _
    rw [hless.rtOn]
    simp
  · show s'.rtNrRunning = _
    rw [hless.rt, ncard_queuedOf_erase hown hon, h.rt]
  · show s'.hNrRunning = _
    rw [hless.fair, ncard_queuedOf_erase hown hon, h.fair]
  · intro hq
    rw [hoff] at hq
    simp at hq

/-- Rewriting a task that is not queued changes no count. -/
theorem Counts.rewritten (h : Counts s) (hoff : (s.task p).onRq = false) (hidle : p ≠ s.idle)
    (t : TaskStruct) : Counts (s.modify p fun old => { t with onRq := false, rt := old.rt }) := by
  have hoff' : ((s.modify p fun old => { t with onRq := false, rt := old.rt }).task p).onRq
      = false := by
    rw [s.modify_task_self]
  have hqueued : ∀ cls, queuedOf (s.modify p fun old => { t with onRq := false, rt := old.rt }) cls
      = queuedOf s cls := by
    intro cls
    ext q
    by_cases hq : q = p
    · subst hq
      simp [queuedOf, hoff]
    · simp [queuedOf, s.modify_task_of_ne _ hq]
  refine h.changed hidle rfl ?_ (fun _ _ => rfl) ?_ ?_ ?_ ?_ ⟨h.counted.queued, h.counted.total⟩ ?_
  · intro q hq
    exact s.modify_task_of_ne _ hq
  · show Levels.count s.tsQueue p = _
    rw [h.ts p, hoff', hoff]
    simp
  · have hrt := h.rtOn p
    rw [hoff', s.modify_task_self]
    show (s.task p).rt.onRq = true ↔ _
    rw [hrt, hoff]
    simp
  · rw [hqueued]
    exact h.rt
  · rw [hqueued]
    exact h.fair
  · intro hq
    rw [hoff'] at hq
    simp at hq

/-- Nothing is linked or taken off its list, and the counters still agree. -/
theorem Counts.of_quiet (h : Counts s) (hq : Quiet s s') (hrt : s'.rtNrRunning = s.rtNrRunning)
    (hfair : s'.hNrRunning = s.hNrRunning) (hcounted : RtCounted s.hNrRunning s') : Counts s' := by
  refine ⟨?_, ?_, ?_, ?_, ?_, ?_, ?_, ?_⟩
  · rw [hq.tsQueue, hq.task]
    exact h.ts
  · rw [hq.task]
    exact h.rtOn
  · rw [hrt, queuedOf, hq.task]
    exact h.rt
  · rw [hfair, queuedOf, hq.task]
    exact h.fair
  · rw [hfair]
    exact hcounted
  · rw [hq.task, hq.idle]
    exact h.classes
  · rw [hq.task, hq.idle]
    exact h.idle
  · rw [hq.task]
    exact h.finite

theorem Counts.timed (h : Counts s) (ht : Timed s s') (hcounted : RtCounted s.hNrRunning s') :
    Counts s' := h.of_quiet ht.toQuiet ht.rtNrRunning ht.hNrRunning hcounted

theorem callStep_counts (hother : FairCounts other) {c : Call} (h : Counts s)
    (hstep : callStep other s c = some s') : Counts s' := by
  obtain ⟨hen, rfl⟩ := callStep_eq_some hstep
  cases c with
  | enqueueTask p flags =>
      obtain ⟨hidle, hoff, hcls⟩ := hen
      refine h.enqueued (enqueueTask_owns other s p flags) hoff hidle ?_
        (enqueueTask_oneMore hother h hoff hcls flags)
      rcases hcls with hts | hrest
      · exact Or.inl hts.1
      · exact Or.inr hrest
  | dequeueTask p flags =>
      obtain ⟨hidle, hon⟩ := hen
      exact h.dequeued (dequeueTask_owns other s p flags) hon hidle
        (dequeueTask_oneLess hother h hon hidle flags)
  | rewrite p t => exact h.rewritten hen.2 hen.1 t
  | switchTo p =>
      exact ⟨h.ts, h.rtOn, h.rt, h.fair, ⟨h.counted.queued, h.counted.total⟩, h.classes, h.idle,
        h.finite⟩
  | updateCurrRt => exact h.timed (updateCurrRt_timed other s) (h.counted.updateCurrRt other)
  | doSchedRtPeriodTimer =>
      exact h.timed (doSchedRtPeriodTimer_timed other s) (h.counted.doSchedRtPeriodTimer other)

theorem callRun_counts (hother : FairCounts other) (hempty : EmptyRq s) {calls : List Call}
    (hrun : Runs.run (callStep other) s calls = some t) : Counts t :=
  Runs.run_invariant (fun _ _ _ h hstep => callStep_counts hother h hstep) calls s t
    hempty.counts hrun

/-! ### The counter -/

/-- The counter is the number of queued tasks, and a CPU that is idle has none. -/
structure Accounted (s : Sys X) : Prop where
  total : s.nrRunning
    = (queuedOf s .ts).ncard + (queuedOf s .rt).ncard + s.hNrRunning
  idle : idleCpu s = 1 → ∀ q, q ≠ s.idle → (s.task q).onRq = false

/-- No time-sharing task is queued. -/
def NoTs (s : Sys X) : Prop :=
  ∀ q, ¬((s.task q).onRq = true ∧ (s.task q).schedClass = .ts)

theorem noTs_iff (h : Counts s) : NoTs s ↔ (queuedOf s .ts).ncard = 0 := by
  rw [Set.ncard_eq_zero (h.finite_of .ts), Set.eq_empty_iff_forall_notMem]
  exact Iff.rfl

/-- Where nothing is counted nothing is queued. -/
theorem Counts.unqueued (h : Counts s) {cls : SchedClass} (hzero : (queuedOf s cls).ncard = 0)
    {q : TaskId} (hcls : (s.task q).schedClass = cls) : (s.task q).onRq = false := by
  by_contra hon
  have hpos := h.pos (p := q) (by simpa using hon)
  rw [hcls] at hpos
  exact hpos hzero

/-- A CPU that is not throttled has all its real-time tasks in the counter. -/
theorem Counts.total (h : Counts s) (hthr : s.rtThrottled = false) :
    s.nrRunning = s.hNrRunning + s.rtNrRunning := by
  rw [h.counted.total]
  split
  · rfl
  · rename_i hq
    by_contra hne
    exact hq (h.counted.queued.mpr ⟨by omega, hthr⟩)

theorem accounted_iff_noTs (h : Counts s) (hthr : s.rtThrottled = false) :
    Accounted s ↔ NoTs s := by
  have htotal := h.total hthr
  have hrt := h.rt
  have hfair := h.fair
  rw [noTs_iff h]
  constructor
  · intro hacc
    have := hacc.total
    omega
  · intro hts
    refine ⟨by omega, ?_⟩
    intro hidle q hne
    have hnr : s.nrRunning = 0 := by
      unfold idleCpu at hidle
      split at hidle
      · simp at hidle
      · split at hidle
        · simp at hidle
        · rename_i hzero
          omega
    by_contra hon
    rcases h.classes q (by simpa using hon) hne with hc | hc | hc
    · exact hon (h.unqueued hts hc)
    · exact hon (h.unqueued (by omega) hc)
    · exact hon (h.unqueued (by omega) hc)

/-- The call does not enqueue a time-sharing task. -/
def NotTsEnqueue (s : Sys X) : Call → Prop
  | .enqueueTask p _ => (s.task p).schedClass ≠ .ts
  | _ => True

/-- Whose task is queued does not change. -/
theorem NoTs.of_task (h : NoTs s) (htask : s'.task = s.task) : NoTs s' := by
  unfold NoTs
  rw [htask]
  exact h

theorem callStep_noTs {c : Call} (h : NoTs s) (hstep : callStep other s c = some s') :
    NoTs s' ↔ NotTsEnqueue s c := by
  obtain ⟨hen, rfl⟩ := callStep_eq_some hstep
  cases c with
  | enqueueTask p flags =>
      have hown := enqueueTask_owns other s p flags
      have hself := hown.self.schedClass
      constructor
      · intro hno hts
        refine hno p ?_
        show ((ttwuActivate other s p flags).task p).onRq = true ∧
          ((ttwuActivate other s p flags).task p).schedClass = .ts
        unfold ttwuActivate
        rw [Sys.modify_task_self]
        exact ⟨rfl, hself.trans hts⟩
      · intro hne q hq
        have hq' : ((ttwuActivate other s p flags).task q).onRq = true ∧
          ((ttwuActivate other s p flags).task q).schedClass = .ts := hq
        unfold ttwuActivate at hq'
        by_cases hqp : q = p
        · subst hqp
          rw [Sys.modify_task_self] at hq'
          exact hne (hself.symm.trans hq'.2)
        · rw [Sys.modify_task_of_ne _ _ hqp, hown.frame q hqp] at hq'
          exact h q hq'
  | dequeueTask p flags =>
      have hown := dequeueTask_owns other s p flags
      refine iff_of_true ?_ trivial
      intro q hq
      have hq' : (((dequeueTask other s p flags).modify p fun t =>
          { t with onRq := false }).task q).onRq = true ∧
        (((dequeueTask other s p flags).modify p fun t =>
          { t with onRq := false }).task q).schedClass = .ts := hq
      by_cases hqp : q = p
      · subst hqp
        rw [Sys.modify_task_self] at hq'
        simp at hq'
      · rw [Sys.modify_task_of_ne _ _ hqp, hown.frame q hqp] at hq'
        exact h q hq'
  | rewrite p t =>
      refine iff_of_true ?_ trivial
      intro q hq
      have hq' : ((s.modify p fun old => { t with onRq := false, rt := old.rt }).task q).onRq = true ∧
        ((s.modify p fun old => { t with onRq := false, rt := old.rt }).task q).schedClass
          = .ts := hq
      by_cases hqp : q = p
      · subst hqp
        rw [Sys.modify_task_self] at hq'
        simp at hq'
      · rw [Sys.modify_task_of_ne _ _ hqp] at hq'
        exact h q hq'
  | switchTo p => exact iff_of_true h trivial
  | updateCurrRt => exact iff_of_true (h.of_task (updateCurrRt_timed other s).task) trivial
  | doSchedRtPeriodTimer =>
      exact iff_of_true (h.of_task (doSchedRtPeriodTimer_timed other s).task) trivial

theorem EmptyRq.noTs (h : EmptyRq s) : NoTs s := by
  intro q hq
  rw [h.unqueued q hq.1, h.idle] at hq
  simp at hq

/-! ### No throttling -/

/-- Real-time tasks never use up their time. -/
def NoThrottling (other : OtherClasses X) : Prop := ∀ s, (other.rtAccount s).exceeded = false

theorem updateCurrRt_unthrottled (hno : NoThrottling other) (hthr : s.rtThrottled = false) :
    (updateCurrRt other s).rtThrottled = false := by
  unfold updateCurrRt schedRtRuntimeExceeded
  simp only [hno s, hthr]
  repeat' split
  all_goals first | exact hthr | rfl

theorem doSchedRtPeriodTimer_unthrottled (hthr : s.rtThrottled = false) :
    (doSchedRtPeriodTimer other s).rtThrottled = false := by
  unfold doSchedRtPeriodTimer schedRtRqEnqueue enqueueTopRtRq
  simp only [hthr]
  repeat' split
  all_goals first | exact hthr | rfl

theorem callStep_unthrottled (hno : NoThrottling other) {c : Call} (hthr : s.rtThrottled = false)
    (hstep : callStep other s c = some s') : s'.rtThrottled = false := by
  obtain ⟨-, rfl⟩ := callStep_eq_some hstep
  cases c with
  | enqueueTask p flags =>
      show (enqueueTask other s p flags).rtThrottled = false
      unfold enqueueTask
      split
      · unfold enqueueTaskTs tsListAddTail
        simp only
        repeat' split
        all_goals exact hthr
      · rw [(enqueueTaskRt_onlyRt s p flags).rtThrottled]
        exact hthr
      · exact hthr
  | dequeueTask p flags =>
      show (dequeueTask other s p flags).rtThrottled = false
      unfold dequeueTask
      split
      · exact hthr
      · unfold dequeueTaskRt
        rw [(dequeueRtEntity_onlyRt _ p flags).rtThrottled]
        exact updateCurrRt_unthrottled hno hthr
      · exact hthr
  | rewrite p t => exact hthr
  | switchTo p => exact hthr
  | updateCurrRt => exact updateCurrRt_unthrottled hno hthr
  | doSchedRtPeriodTimer => exact doSchedRtPeriodTimer_unthrottled hthr

/--
**Accounting.**  Where no CPU is throttled, in a state that calls from an empty runqueue lead
to, `nr_running` is the number of queued tasks and `idle_cpu` means what it says exactly when
no time-sharing task is queued; and it is so all along the calls exactly when none of them
enqueues a time-sharing task.
-/
theorem accounted_iff (hother : FairCounts other) (hno : NoThrottling other) (hempty : EmptyRq s)
    (hthr : s.rtThrottled = false) {calls : List Call}
    (hrun : Runs.run (callStep other) s calls = some t) :
    (Accounted t ↔ NoTs t) ∧
      (Runs.Always (callStep other) Accounted s calls ↔
        Runs.EachStep (callStep other) NotTsEnqueue s calls) := by
  have hkeep : ∀ u c u', Counts u ∧ u.rtThrottled = false → callStep other u c = some u' →
      Counts u' ∧ u'.rtThrottled = false := fun u c u' h hstep =>
    ⟨callStep_counts hother h.1 hstep, callStep_unthrottled hno h.2 hstep⟩
  have hstart : Counts s ∧ s.rtThrottled = false := ⟨hempty.counts, hthr⟩
  have hend := Runs.run_invariant hkeep calls s t hstart hrun
  refine ⟨accounted_iff_noTs hend.1 hend.2, ?_⟩
  refine Runs.always_iff_eachStep hkeep ?_ calls s t hstart
    ((accounted_iff_noTs hempty.counts hthr).mpr hempty.noTs) hrun
  intro u c u' h hacc hstep
  obtain ⟨hcounts, hthr'⟩ := hkeep u c u' h hstep
  rw [accounted_iff_noTs hcounts hthr']
  exact callStep_noTs ((accounted_iff_noTs h.1 h.2).mp hacc) hstep

theorem queueFair_counts : FairCounts queueFair where
  enqueue _ _ _ := ⟨rfl, rfl⟩
  dequeue _ _ _ := ⟨rfl, rfl⟩

theorem queueFair_noThrottling : NoThrottling queueFair := fun _ => rfl

theorem emptySys_empty : EmptyRq emptySys where
  tsQueue := rfl
  counters := ⟨rfl, rfl, rfl, rfl⟩
  unqueued q hon := by
    by_contra hne
    have hne' : ¬q = 0 := hne
    simp [emptySys, hne', normalTask] at hon
  rtOff q := by
    show (if q = 0 then _ else _ : TaskStruct).rt.onRq = false
    split <;> rfl
  idle := rfl

/-- A fair task is enqueued and counted. -/
theorem accounted_fair :
    ∃ t, Runs.run (callStep queueFair) emptySys [.enqueueTask 1 {}] = some t ∧ Accounted t := by
  have hrun : Runs.run (callStep queueFair) emptySys [.enqueueTask 1 {}] = some _ := rfl
  have hiff := accounted_iff queueFair_counts queueFair_noThrottling emptySys_empty rfl hrun
  have heach : Runs.EachStep (callStep queueFair) NotTsEnqueue emptySys [.enqueueTask 1 {}] :=
    ⟨show (emptySys.task 1).schedClass ≠ .ts by decide, fun _ _ => trivial⟩
  exact ⟨_, hrun, Runs.always_last _ _ _ (hiff.2.mpr heach) hrun⟩

/-- A time-sharing task is enqueued, and the CPU still counts as idle. -/
theorem accounted_fails_for_ts :
    FairCounts queueFair ∧ NoThrottling queueFair ∧ EmptyRq emptySys ∧
      emptySys.rtThrottled = false ∧
      ∃ t, Runs.run (callStep queueFair) emptySys [.rewrite 1 tsTask, .enqueueTask 1 {}] = some t ∧
        ¬Accounted t := by
  refine ⟨queueFair_counts, queueFair_noThrottling, emptySys_empty, rfl, _, rfl, ?_⟩
  intro hacc
  have hoff := hacc.idle (by decide +kernel) 1 (by decide)
  exact absurd hoff (by decide +kernel)

end Sched
