/-
Taking a task off its list and putting it back.

`do_set_cpus_allowed` dequeues a task with `DEQUEUE_SAVE` and enqueues it again with
`ENQUEUE_RESTORE`, only to have it in a known state meanwhile; without `MOVE` the task is
to find itself where it was.  `rt.c` asks `move_entity` and leaves the list alone
(`rt_keepsPlace`).  The hooks of `ts.c` do not look at these flags: the task goes to the
tail of the list of its priority, and keeps its place only if it was there already.
-/
import KernelProgramming.Proofs.Sched.Reachable

namespace Sched

variable {X : Type} {other : OtherClasses X} {s : Sys X} {p : TaskId}

/-- The pair as `do_set_cpus_allowed` makes it, with or without the clock. -/
def saveAndRestore (other : OtherClasses X) (s : Sys X) (p : TaskId) (noclock : Bool) : Sys X :=
  enqueueTask other (dequeueTask other s p { restore := true, noclock := noclock }) p
    { restore := true, noclock := noclock }

/-- The pair, and the call that makes it, leave the lists of `rq->ts` as they were. -/
structure KeepsPlace (other : OtherClasses X) (s : Sys X) (p : TaskId) : Prop where
  pair : ∀ noclock, (saveAndRestore other s p noclock).tsQueue = s.tsQueue
  call : (doSetCpusAllowed other s p).tsQueue = s.tsQueue

/-- The task is at the tail of the list of its priority. -/
def LastOfLevel (s : Sys X) (p : TaskId) : Prop :=
  ∃ i, tsLevel? (139 - (s.task p).prio) = some i ∧ (s.tsQueue i).getLast? = some p

theorem dequeueTask_of_ts (hts : (s.task p).schedClass = .ts) (flags : QueueFlags) :
    dequeueTask other s p flags = tsListDel s p := by
  unfold dequeueTask
  rw [hts]
  rfl

/-- What the two hooks do to the lists. -/
theorem saveAndRestore_tsQueue (hts : (s.task p).schedClass = .ts) (noclock : Bool) :
    (saveAndRestore other s p noclock).tsQueue
      = match tsLevel? (139 - (s.task p).prio) with
        | none => Levels.del s.tsQueue p
        | some i => Levels.moveTail s.tsQueue i p := by
  have henq : saveAndRestore other s p noclock
      = tsListAddTail (tsListDel s p) p (139 - (s.task p).prio) := by
    unfold saveAndRestore
    rw [dequeueTask_of_ts hts]
    unfold enqueueTask
    rw [show ((tsListDel s p).task p).schedClass = .ts from hts]
    rfl
  rw [henq]
  unfold tsListAddTail
  cases tsLevel? (139 - (s.task p).prio) <;> rfl

/-- The call is the pair, for a task that is queued. -/
theorem doSetCpusAllowed_tsQueue (hts : (s.task p).schedClass = .ts)
    (hqueued : (s.task p).onRq = true) :
    (doSetCpusAllowed other s p).tsQueue = (saveAndRestore other s p true).tsQueue := by
  -- `put_prev_task` has nothing to do for this class.
  have hoff : takeOff other s p { restore := true, noclock := true } = tsListDel s p := by
    unfold takeOff putPrevTask
    rw [if_pos hqueued, dequeueTask_of_ts hts]
    dsimp only
    rw [show ((tsListDel s p).task p).schedClass = .ts from hts]
    exact ite_self _
  unfold doSetCpusAllowed saveAndRestore
  dsimp only
  rw [(setCurrIf_quiet other _ p _).tsQueue, hoff, dequeueTask_of_ts hts, hqueued]
  rfl

/--
**When a task keeps its place.**  A task of the class that is queued, and so linked once, is
where it was after a spurious dequeue and enqueue exactly if it was the last of the list of
its priority.
-/
theorem keepsPlace_iff (hts : (s.task p).schedClass = .ts) (hqueued : (s.task p).onRq = true)
    (hlinked : Levels.count s.tsQueue p = 1) : KeepsPlace other s p ↔ LastOfLevel s p := by
  have hpair : ∀ noclock, (saveAndRestore other s p noclock).tsQueue = s.tsQueue ↔
      LastOfLevel s p := by
    intro noclock
    rw [saveAndRestore_tsQueue hts]
    unfold LastOfLevel
    cases tsLevel? (139 - (s.task p).prio) with
    | none => exact iff_of_false (Levels.del_ne_self (by omega)) (by simp)
    | some i =>
        rw [Levels.moveTail_eq_self_iff hlinked]
        simp
  constructor
  · intro h
    exact (hpair true).mp (h.pair true)
  · intro h
    refine ⟨fun noclock => (hpair noclock).mpr h, ?_⟩
    rw [doSetCpusAllowed_tsQueue hts hqueued]
    exact (hpair true).mpr h

theorem keepsPlace_forked : ∃ s, Runs.run (step queueFair) bootSys forkInTs = some s ∧
    KeepsPlace queueFair s 2 := by
  refine ⟨_, rfl, (keepsPlace_iff rfl rfl ?_).mpr ⟨19, rfl, ?_⟩⟩
  · decide +kernel
  · decide +kernel

/-- The running task loses its turn to the one behind it. -/
theorem keepsPlace_fails_for_running : ∃ s, Runs.run (step queueFair) bootSys forkInTs = some s ∧
    s.curr = 1 ∧ (s.task 1).schedClass = .ts ∧ (s.task 1).onRq = true ∧ s.tsQueue 19 = [1, 2] ∧
      (doSetCpusAllowed queueFair s 1).tsQueue 19 = [2, 1] ∧ ¬KeepsPlace queueFair s 1 := by
  refine ⟨_, rfl, rfl, rfl, rfl, rfl, rfl, ?_⟩
  intro h
  have hcall := congrFun h.call 19
  exact absurd hcall (by decide +kernel)

/-! ### The sibling -/

/-- An entity that is not to be moved stays on its list. -/
theorem dequeueRtStack_rtQueue {flags : QueueFlags} (hflags : moveEntity flags = false) (s : Sys X)
    (p : TaskId) : (dequeueRtStack s p flags).rtQueue = s.rtQueue := by
  unfold dequeueRtStack dequeueRtEntityOnce
  rw [hflags]
  dsimp only
  split
  · rw [if_neg (by simp), (decRtTasks_kept _ p).2]
    exact (dequeueTopRtRq_kept s).2
  · exact (dequeueTopRtRq_kept s).2

theorem enqueueRtEntity_rtQueue {flags : QueueFlags} (hflags : moveEntity flags = false) (s : Sys X)
    (p : TaskId) : (enqueueRtEntity s p flags).rtQueue = s.rtQueue := by
  unfold enqueueRtEntity enqueueRtEntityOnce
  rw [hflags, (enqueueTopRtRq_kept _).2, (incRtTasks_kept _ p).2]
  exact dequeueRtStack_rtQueue hflags s p

/-- **A real-time task keeps its place**: the flags of the pair leave the lists alone. -/
theorem rt_keepsPlace (hrt : (s.task p).schedClass = .rt) (noclock : Bool) :
    (saveAndRestore other s p noclock).rtQueue = s.rtQueue := by
  have hflags : moveEntity { restore := true, noclock := noclock } = false := rfl
  have hdeq : dequeueTask other s p { restore := true, noclock := noclock }
      = dequeueTaskRt other s p { restore := true, noclock := noclock } := by
    unfold dequeueTask
    rw [hrt]
  have hstill := (dequeueTaskRt_owns other s p { restore := true, noclock := noclock }).self
  unfold saveAndRestore
  rw [hdeq]
  unfold enqueueTask
  rw [hstill.schedClass, hrt]
  show (enqueueRtEntity (dequeueTaskRt other s p _) p _).rtQueue = _
  rw [enqueueRtEntity_rtQueue hflags]
  show (enqueueTopRtRq (dequeueRtStack (updateCurrRt other s) p _)).rtQueue = _
  rw [(enqueueTopRtRq_kept _).2, dequeueRtStack_rtQueue hflags]
  exact (updateCurrRt_timed other s).rtQueue

end Sched
