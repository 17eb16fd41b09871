/-
The runqueue of the real-time class.

`struct rt_rq` keeps what it knows of its tasks several times over: the lists, the
bitmap of the lists that have anyone on them, the number of tasks, the number of
round-robin tasks, the best priority, whether `rq->nr_running` has been told, and
whether the CPU is throttled.  `RtOK` says what they are in terms of one another and of the tasks, and this file
shows that `enqueue_task_rt`, `dequeue_task_rt` and `requeue_task_rt` keep it.

A dequeue with `DEQUEUE_SAVE` and without `DEQUEUE_MOVE` takes a task out of the
counters and leaves it on its list, with its bit set.  So the counters are stated
over the entities with `on_rq`, and the bitmap over the lists.
-/
import KernelProgramming.Proofs.Sched.Accounting

namespace Sched

variable {X : Type} {other : OtherClasses X} {s s' : Sys X} {p : TaskId}

/-- `struct rt_rq`. -/
structure RtRq where
  queue : Levels.Queue 100 TaskId
  bitmap : Fin 100 → Bool
  nrRunning : Nat
  rrNrRunning : Nat
  queued : Bool
  throttled : Bool
  highestPrio : Int

def Sys.rtRq (s : Sys X) : RtRq :=
  { queue := s.rtQueue
    bitmap := s.rtBitmap
    nrRunning := s.rtNrRunning
    rrNrRunning := s.rrNrRunning
    queued := s.rtQueued
    throttled := s.rtThrottled
    highestPrio := s.rtHighestPrio }

/-- The entities `rt.c` has counted, of the policies in question. -/
def rtCounted (task : TaskId → TaskStruct) (pol : Policy → Bool) : Set TaskId :=
  {q | (task q).rt.onRq = true ∧ pol (task q).policy = true}

/-- The fields of `struct rt_rq` agree with one another and with the tasks. -/
structure RtRq.Agrees (r : RtRq) (task : TaskId → TaskStruct) : Prop where
  place : ∀ q i, q ∈ r.queue i → rtLevel? (task q).prio = some i
  onList : ∀ q, (task q).rt.onList = true ↔ ∃ i, q ∈ r.queue i
  bits : ∀ i, r.bitmap i = true ↔ r.queue i ≠ []
  finite : (rtCounted task fun _ => true).Finite
  nr : r.nrRunning = (rtCounted task fun _ => true).ncard
  rr : r.rrNrRunning = (rtCounted task fun policy => policy = .rr).ncard
  highest : r.highestPrio = if r.nrRunning = 0 then maxRtPrio else schedFindFirstBit r.bitmap
  queued : r.queued = true ↔ r.nrRunning ≠ 0 ∧ r.throttled = false

def RtOK (s : Sys X) : Prop := s.rtRq.Agrees s.task

/-! ### The first bit -/

theorem schedFindFirstBit_of_first {b : Fin 100 → Bool} {i : Fin 100} (hi : b i = true)
    (hmin : ∀ j, j < i → b j = false) : schedFindFirstBit b = i.val := by
  have hfind : (List.finRange 100).find? b = some i := by
    rw [← Fin.find?_eq_find?_finRange]
    exact Fin.find?_eq_some_iff.mpr ⟨hi, hmin⟩
  unfold schedFindFirstBit
  rw [hfind]

/-- Either a bit is set and the first one is found, or none is and the delimiter is. -/
theorem schedFindFirstBit_cases (b : Fin 100 → Bool) :
    (∃ i, schedFindFirstBit b = i.val ∧ b i = true ∧ ∀ j, j < i → b j = false) ∨
      (schedFindFirstBit b = maxRtPrio ∧ ∀ i, b i = false) := by
  unfold schedFindFirstBit
  rw [← Fin.find?_eq_find?_finRange]
  cases hfind : Fin.find? b with
  | none => exact Or.inr ⟨rfl, Fin.find?_eq_none_iff.mp hfind⟩
  | some i => exact Or.inl ⟨i, rfl, Fin.find?_eq_some_iff.mp hfind⟩

theorem schedFindFirstBit_le {b : Fin 100 → Bool} {i : Fin 100} (hi : b i = true) :
    schedFindFirstBit b ≤ i.val := by
  rcases schedFindFirstBit_cases b with ⟨j, hj, -, hmin⟩ | ⟨-, hnone⟩
  · rw [hj]
    by_contra hlt
    have hij : i < j := by
      rw [Fin.lt_def]
      omega
    rw [hmin i hij] at hi
    simp at hi
  · rw [hnone i] at hi
    simp at hi

/-- Setting a bit. -/
theorem schedFindFirstBit_set (b : Fin 100 → Bool) (i : Fin 100) :
    schedFindFirstBit (Function.update b i true) = min (schedFindFirstBit b) i.val := by
  rcases schedFindFirstBit_cases b with ⟨j, hj, hbj, hmin⟩ | ⟨hmax, hnone⟩
  · rw [hj]
    by_cases hij : i < j
    · rw [schedFindFirstBit_of_first (Function.update_self ..)]
      · rw [Fin.lt_def] at hij
        omega
      · intro k hk
        rw [Function.update_of_ne (ne_of_lt hk)]
        exact hmin k (hk.trans hij)
    · have hji : j ≤ i := not_lt.mp hij
      have hset : Function.update b i true j = true := by
        by_cases heq : j = i
        · rw [heq, Function.update_self]
        · rw [Function.update_of_ne heq]
          exact hbj
      rw [schedFindFirstBit_of_first hset]
      · rw [Fin.le_def] at hji
        omega
      · intro k hk
        rw [Function.update_of_ne (ne_of_lt (lt_of_lt_of_le hk hji))]
        exact hmin k hk
  · rw [schedFindFirstBit_of_first (Function.update_self ..), hmax]
    · have hlt := i.isLt
      unfold maxRtPrio
      omega
    · intro k hk
      rw [Function.update_of_ne (ne_of_lt hk)]
      exact hnone k

/-- Clearing a bit that is not the first. -/
theorem schedFindFirstBit_clear {b : Fin 100 → Bool} {i : Fin 100}
    (hne : (i.val : Int) ≠ schedFindFirstBit b) :
    schedFindFirstBit (Function.update b i false) = schedFindFirstBit b := by
  rcases schedFindFirstBit_cases b with ⟨j, hj, hbj, hmin⟩ | ⟨hmax, hnone⟩
  · have hji : j ≠ i := by
      rintro rfl
      exact hne hj.symm
    rw [hj]
    refine schedFindFirstBit_of_first (by rw [Function.update_of_ne hji]; exact hbj) ?_
    intro k hk
    by_cases hki : k = i
    · rw [hki, Function.update_self]
    · rw [Function.update_of_ne hki]
      exact hmin k hk
  · rw [show Function.update b i false = b by rw [← hnone i, Function.update_eq_self]]

theorem rtLevel?_val {prio : Int} {i : Fin 100} (h : rtLevel? prio = some i) : prio = i.val := by
  unfold rtLevel? at h
  split at h
  · cases h
    simp only
    omega
  · simp at h

/-! ### What the operations do to the fields -/

/-- `__enqueue_rt_entity` for a task of priority `i`. -/
def RtRq.enqueueOnce (r : RtRq) (i : Fin 100) (p : TaskId) (policy : Policy)
    (flags : QueueFlags) : RtRq :=
  { r with
    queue :=
      if moveEntity flags then
        if flags.head then Levels.addHead r.queue i p else Levels.addTail r.queue i p
      else r.queue
    bitmap := if moveEntity flags then Function.update r.bitmap i true else r.bitmap
    nrRunning := r.nrRunning + 1
    rrNrRunning := r.rrNrRunning + if policy = .rr then 1 else 0
    highestPrio := min r.highestPrio i.val }

/-- The bitmap once a task of priority `i` has been unlinked. -/
def RtRq.bitmapWithout (r : RtRq) (i : Fin 100) (p : TaskId) (flags : QueueFlags) :
    Fin 100 → Bool :=
  if moveEntity flags = true ∧ Levels.del r.queue p i = [] then Function.update r.bitmap i false
  else r.bitmap

/-- `__dequeue_rt_entity` for a task of priority `i`.  The best priority is read off the
bitmap again if it may have been this task's. -/
def RtRq.dequeueOnce (r : RtRq) (i : Fin 100) (p : TaskId) (policy : Policy)
    (flags : QueueFlags) : RtRq :=
  { r with
    queue := if moveEntity flags then Levels.del r.queue p else r.queue
    bitmap := r.bitmapWithout i p flags
    nrRunning := r.nrRunning - 1
    rrNrRunning := r.rrNrRunning - if policy = .rr then 1 else 0
    highestPrio :=
      if r.nrRunning - 1 = 0 then maxRtPrio
      else if i.val = r.highestPrio then schedFindFirstBit (r.bitmapWithout i p flags)
      else r.highestPrio }

theorem dequeueTopRtRq_rtRq (s : Sys X) :
    (dequeueTopRtRq s).rtRq = { s.rtRq with queued := false } := by
  unfold dequeueTopRtRq
  cases hq : s.rtQueued with
  | true => rfl
  | false =>
      show s.rtRq = _
      unfold Sys.rtRq
      rw [hq]

theorem enqueueTopRtRq_rtRq (h : s.rtQueued = false) :
    (enqueueTopRtRq s).rtRq
      = { s.rtRq with queued := !s.rtThrottled && decide (s.rtNrRunning ≠ 0) } := by
  unfold enqueueTopRtRq
  rw [if_neg (by simp [h])]
  split
  · rename_i hthr
    unfold Sys.rtRq
    simp [h, hthr]
  · rename_i hthr
    split
    · rename_i hne
      unfold Sys.rtRq addNrRunning
      simp [hne, hthr]
    · rename_i hzero
      unfold Sys.rtRq
      simp [h, not_not.mp hzero]

theorem enqueueRtEntityOnce_rtRq {i : Fin 100} (hi : rtLevel? (s.task p).prio = some i)
    (flags : QueueFlags) :
    (enqueueRtEntityOnce s p flags).rtRq = s.rtRq.enqueueOnce i p (s.task p).policy flags := by
  have hinc : ∀ u : Sys X, (incRtTasks u p).rtRq =
      { u.rtRq with
        nrRunning := u.rtNrRunning + 1
        rrNrRunning := u.rrNrRunning + rtSeRrNrRunning (u.task p)
        highestPrio := min u.rtHighestPrio (u.task p).prio } := by
    intro u
    unfold incRtTasks incRtPrio
    split
    · rename_i hlt
      rw [min_eq_right (le_of_lt hlt)]
      rfl
    · rename_i hge
      rw [min_eq_left (not_lt.mp hge)]
      rfl
  unfold enqueueRtEntityOnce RtRq.enqueueOnce
  rw [← rtLevel?_val hi]
  by_cases hm : moveEntity flags = true
  · simp only [hm, if_true]
    rw [hinc]
    unfold enlistRtEntity
    rw [hi]
    simp only [Sys.modify_task_self]
    rfl
  · simp only [hm, Bool.false_eq_true, if_false]
    rw [hinc]
    simp only [Sys.modify_task_self]
    rfl

theorem dequeueRtEntityOnce_rtRq {i : Fin 100} (hi : rtLevel? (s.task p).prio = some i)
    (flags : QueueFlags) :
    (dequeueRtEntityOnce s p flags).rtRq = s.rtRq.dequeueOnce i p (s.task p).policy flags := by
  have hdec : ∀ u : Sys X, (decRtTasks u p).rtRq =
      { u.rtRq with
        nrRunning := u.rtNrRunning - 1
        rrNrRunning := u.rrNrRunning - rtSeRrNrRunning (u.task p)
        highestPrio :=
          if u.rtNrRunning - 1 = 0 then maxRtPrio
          else if (u.task p).prio = u.rtHighestPrio then schedFindFirstBit u.rtBitmap
          else u.rtHighestPrio } := by
    intro u
    unfold decRtTasks decRtPrio
    by_cases hzero : u.rtNrRunning - 1 = 0
    · rw [if_neg (by simpa using hzero), if_pos hzero]
      rfl
    · rw [if_pos hzero, if_neg hzero]
      split <;> rfl
  unfold dequeueRtEntityOnce RtRq.dequeueOnce RtRq.bitmapWithout
  rw [← rtLevel?_val hi]
  by_cases hm : moveEntity flags = true
  · simp only [hm, if_true, true_and]
    rw [hdec]
    unfold delistRtEntity
    simp only [hi, Sys.modify_task_self]
    rfl
  · simp only [hm, Bool.false_eq_true, if_false, false_and]
    rw [hdec]
    simp only [Sys.modify_task_self]
    rfl

theorem enqueueTaskRt_rtRq (hon : (s.task p).rt.onRq = false) {i : Fin 100}
    (hi : rtLevel? (s.task p).prio = some i) (flags : QueueFlags) :
    (enqueueTaskRt s p flags).rtRq =
      RtRq.enqueueOnce { s.rtRq with queued := !s.rtThrottled } i p (s.task p).policy flags := by
  -- A wakeup clears the timeout first, which none of the fields depends on.
  have hone : ∀ u : Sys X, (u.task p).rt.onRq = false → rtLevel? (u.task p).prio = some i →
      (enqueueRtEntity u p flags).rtRq =
        RtRq.enqueueOnce { u.rtRq with queued := !u.rtThrottled } i p (u.task p).policy flags := by
    intro u hu hui
    have htask := (dequeueTopRtRq_kept u).1
    have honce := enqueueRtEntityOnce_rtRq (s := dequeueTopRtRq u) (by rw [htask]; exact hui) flags
    rw [htask, dequeueTopRtRq_rtRq] at honce
    have hnr : (enqueueRtEntityOnce (dequeueTopRtRq u) p flags).rtNrRunning ≠ 0 := by
      rw [show (enqueueRtEntityOnce (dequeueTopRtRq u) p flags).rtNrRunning = u.rtNrRunning + 1
        from congrArg RtRq.nrRunning honce]
      omega
    unfold enqueueRtEntity dequeueRtStack
    simp only
    rw [if_neg (by rw [htask, hu]; simp), enqueueTopRtRq_rtRq (congrArg RtRq.queued honce), honce,
      decide_eq_true hnr, Bool.and_true,
      show (enqueueRtEntityOnce (dequeueTopRtRq u) p flags).rtThrottled = u.rtThrottled
        from congrArg RtRq.throttled honce]
    rfl
  unfold enqueueTaskRt
  by_cases hw : flags.wakeup = true
  · simp only [hw, if_true]
    rw [hone _ (by rw [s.modify_task_self]; exact hon) (by rw [s.modify_task_self]; exact hi),
      s.modify_task_self]
    rfl
  · simp only [hw, if_false, Bool.false_eq_true]
    exact hone s hon hi

theorem dequeueRtEntity_rtRq (hon : (s.task p).rt.onRq = true) {i : Fin 100}
    (hi : rtLevel? (s.task p).prio = some i) (flags : QueueFlags) :
    (dequeueRtEntity s p flags).rtRq =
      RtRq.dequeueOnce
        { s.rtRq with queued := !s.rtThrottled && decide (s.rtNrRunning - 1 ≠ 0) } i p
        (s.task p).policy flags := by
  have htask := (dequeueTopRtRq_kept s).1
  have honce := dequeueRtEntityOnce_rtRq (s := dequeueTopRtRq s) (by rw [htask]; exact hi) flags
  rw [htask, dequeueTopRtRq_rtRq] at honce
  unfold dequeueRtEntity dequeueRtStack
  simp only
  rw [if_pos (by rw [htask]; exact hon), enqueueTopRtRq_rtRq (congrArg RtRq.queued honce), honce,
    show (dequeueRtEntityOnce (dequeueTopRtRq s) p flags).rtNrRunning = s.rtNrRunning - 1
      from congrArg RtRq.nrRunning honce,
    show (dequeueRtEntityOnce (dequeueTopRtRq s) p flags).rtThrottled = s.rtThrottled
      from congrArg RtRq.throttled honce]
  rfl

/-- `on_list` follows the links. -/
theorem enqueueTaskRt_onList (hon : (s.task p).rt.onRq = false) {i : Fin 100}
    (hi : rtLevel? (s.task p).prio = some i) (flags : QueueFlags) :
    ((enqueueTaskRt s p flags).task p).rt.onList
      = if moveEntity flags then true else (s.task p).rt.onList := by
  have hone : ∀ u : Sys X, (u.task p).rt.onRq = false → rtLevel? (u.task p).prio = some i →
      ((enqueueRtEntity u p flags).task p).rt.onList
        = if moveEntity flags then true else (u.task p).rt.onList := by
    intro u hu hui
    have htask := (dequeueTopRtRq_kept u).1
    unfold enqueueRtEntity dequeueRtStack
    simp only
    rw [(enqueueTopRtRq_kept _).1, if_neg (by rw [htask, hu]; simp)]
    unfold enqueueRtEntityOnce
    rw [(incRtTasks_kept _ p).1, Sys.modify_task_self]
    dsimp only
    split
    · unfold enlistRtEntity
      rw [htask, hui]
      dsimp only
      rw [Sys.modify_task_self]
    · rw [htask]
  unfold enqueueTaskRt
  by_cases hw : flags.wakeup = true
  · simp only [hw, if_true]
    rw [hone _ (by rw [s.modify_task_self]; exact hon) (by rw [s.modify_task_self]; exact hi),
      s.modify_task_self]
  · simp only [hw, if_false, Bool.false_eq_true]
    exact hone s hon hi

theorem dequeueRtEntity_onList (hon : (s.task p).rt.onRq = true) (flags : QueueFlags) :
    ((dequeueRtEntity s p flags).task p).rt.onList
      = if moveEntity flags then false else (s.task p).rt.onList := by
  have htask := (dequeueTopRtRq_kept s).1
  unfold dequeueRtEntity dequeueRtStack
  simp only
  rw [(enqueueTopRtRq_kept _).1, if_pos (by rw [htask]; exact hon)]
  unfold dequeueRtEntityOnce
  rw [(decRtTasks_kept _ p).1, Sys.modify_task_self]
  dsimp only
  split
  · unfold delistRtEntity
    dsimp only
    rw [Sys.modify_task_self]
  · rw [htask]

/-! ### The sets of counted entities -/

variable {task task' : TaskId → TaskStruct}

theorem rtCounted_finite (h : (rtCounted task fun _ => true).Finite) (pol : Policy → Bool) :
    (rtCounted task pol).Finite :=
  h.subset fun _ hq => ⟨hq.1, rfl⟩

/-- One entity more. -/
theorem ncard_rtCounted_insert (hfin : (rtCounted task fun _ => true).Finite)
    (hframe : ∀ q, q ≠ p → task' q = task q) (hpol : (task' p).policy = (task p).policy)
    (hoff : (task p).rt.onRq = false) (hon : (task' p).rt.onRq = true) (pol : Policy → Bool) :
    (rtCounted task' pol).ncard
      = (rtCounted task pol).ncard + if pol (task p).policy = true then 1 else 0 := by
  have hset : rtCounted task' pol
      = if pol (task p).policy = true then insert p (rtCounted task pol)
        else rtCounted task pol := by
    ext q
    by_cases hq : q = p
    · subst hq
      split <;> rename_i hp <;> simp [rtCounted, hon, hoff, hpol, hp]
    · split <;> simp [rtCounted, hframe q hq, hq]
  have hnot : p ∉ rtCounted task pol := by
    intro hmem
    have hon' := hmem.1
    rw [hoff] at hon'
    simp at hon'
  rw [hset]
  split
  · exact Set.ncard_insert_of_notMem hnot (rtCounted_finite hfin pol)
  · rfl

/-- One entity less. -/
theorem ncard_rtCounted_erase (hframe : ∀ q, q ≠ p → task' q = task q)
    (hon : (task p).rt.onRq = true) (hoff : (task' p).rt.onRq = false) (pol : Policy → Bool) :
    (rtCounted task' pol).ncard
      = (rtCounted task pol).ncard - if pol (task p).policy = true then 1 else 0 := by
  have hset : rtCounted task' pol = rtCounted task pol \ {p} := by
    ext q
    by_cases hq : q = p
    · subst hq
      simp [rtCounted, hoff]
    · simp [rtCounted, hframe q hq, hq]
  rw [hset]
  split
  · rename_i hp
    exact Set.ncard_sdiff_singleton_of_mem ⟨hon, hp⟩
  · rename_i hp
    rw [Set.sdiff_singleton_eq_self]
    · rfl
    · intro hmem
      exact hp hmem.2

theorem rtCounted_finite_of_frame (hfin : (rtCounted task fun _ => true).Finite)
    (hframe : ∀ q, q ≠ p → task' q = task q) : (rtCounted task' fun _ => true).Finite := by
  refine (hfin.insert p).subset ?_
  intro q hq
  by_cases hqp : q = p
  · exact Or.inl hqp
  · refine Or.inr ⟨?_, rfl⟩
    rw [← hframe q hqp]
    exact hq.1

/-! ### Who is linked when nobody is counted -/

variable {on : TaskId → Bool} {saved : Option TaskId}

/-- When nothing is counted, only a saved task can be on a list. -/
theorem RtOK.alone (h : RtOK s) (hl : Linked on saved s) (hzero : s.rtNrRunning = 0)
    {q : TaskId} {i : Fin 100} (hmem : q ∈ s.rtQueue i) : saved = some q := by
  have hempty : (rtCounted s.task fun _ => true) = ∅ :=
    (Set.ncard_eq_zero h.finite).mp (h.nr.symm.trans hzero)
  have hoff : ¬(on q = true ∧ (s.task q).schedClass = .rt) := by
    intro hq
    have hcounted : q ∈ rtCounted s.task fun _ => true := ⟨(hl.rtOn q).mpr hq, rfl⟩
    rw [hempty] at hcounted
    exact hcounted
  by_contra hne
  have hcount := hl.rt q
  rw [if_neg (not_or.mpr ⟨hoff, hne⟩)] at hcount
  exact Levels.count_eq_zero.mp hcount i hmem

/-- With nobody saved the best priority is the first bit. -/
theorem RtOK.highest_eq (h : RtOK s) (hl : Linked on none s) :
    s.rtHighestPrio = schedFindFirstBit s.rtBitmap := by
  refine h.highest.trans ?_
  by_cases hzero : s.rtRq.nrRunning = 0
  · rw [if_pos hzero]
    rcases schedFindFirstBit_cases s.rtBitmap with ⟨i, -, hi, -⟩ | ⟨hmax, -⟩
    · obtain ⟨q, hq⟩ := List.exists_mem_of_ne_nil _ ((h.bits i).mp hi)
      exact absurd (h.alone hl hzero hq) (by simp)
    · exact hmax.symm
  · rw [if_neg hzero]
    rfl

theorem Linked.saved_mem (h : Linked on (some p) s) : ∃ i, p ∈ s.rtQueue i := by
  have hcount := h.rt p
  rw [if_pos (Or.inr rfl)] at hcount
  exact Levels.count_ne_zero.mp (by omega)

/-- Putting back a saved task makes the first bit the best priority again. -/
theorem RtOK.highest_saved (h : RtOK s) (hl : Linked on (some p) s) {i : Fin 100}
    (hi : rtLevel? (s.task p).prio = some i) :
    min s.rtHighestPrio i.val = schedFindFirstBit s.rtBitmap := by
  obtain ⟨k, hk⟩ := hl.saved_mem
  have hki : k = i := Option.some.inj ((h.place p k hk).symm.trans hi)
  subst hki
  have hbit : s.rtBitmap k = true := (h.bits k).mpr (List.ne_nil_of_mem hk)
  have hhigh : s.rtHighestPrio
      = if s.rtNrRunning = 0 then maxRtPrio else schedFindFirstBit s.rtBitmap := h.highest
  rw [hhigh]
  by_cases hzero : s.rtNrRunning = 0
  · -- The saved task is the only one on any list.
    have hfirst : schedFindFirstBit s.rtBitmap = k.val := by
      refine schedFindFirstBit_of_first hbit fun j hj => ?_
      by_contra hset
      obtain ⟨q, hq⟩ := List.exists_mem_of_ne_nil _ ((h.bits j).mp (Bool.not_eq_false _ ▸ hset))
      have hqp : p = q := Option.some.inj (h.alone hl hzero hq)
      subst hqp
      have hjk : j = k := Option.some.inj ((h.place p j hq).symm.trans hi)
      exact absurd hjk (ne_of_lt hj)
    rw [if_pos hzero, hfirst]
    have hlt := k.isLt
    unfold maxRtPrio
    omega
  · rw [if_neg hzero]
    exact min_eq_left (schedFindFirstBit_le hbit)

theorem Linked.rt_level (h : Linked on saved s) (hrt : (s.task p).schedClass = .rt) :
    ∃ i, rtLevel? (s.task p).prio = some i := by
  have hcls := (h.tasks p).cls
  rw [hrt] at hcls
  exact rtLevel?_of_range hcls

/-! ### The operations keep the fields in agreement -/

theorem enqueueOnce_mem {r : RtRq} {i j : Fin 100} (policy : Policy) {flags : QueueFlags}
    {q : TaskId} : q ∈ (r.enqueueOnce i p policy flags).queue j ↔
      q ∈ r.queue j ∨ (moveEntity flags = true ∧ j = i ∧ q = p) := by
  simp only [RtRq.enqueueOnce]
  by_cases hm : moveEntity flags = true
  · simp only [hm, if_true, true_and]
    split
    · exact Levels.mem_addHead
    · exact Levels.mem_addTail
  · simp [hm]

theorem enqueueOnce_bits {r : RtRq} (h : ∀ j, r.bitmap j = true ↔ r.queue j ≠ []) (i : Fin 100)
    (p : TaskId) (policy : Policy) (flags : QueueFlags) (j : Fin 100) :
    (r.enqueueOnce i p policy flags).bitmap j = true ↔
      (r.enqueueOnce i p policy flags).queue j ≠ [] := by
  unfold RtRq.enqueueOnce Levels.addHead Levels.addTail
  dsimp only
  split
  · by_cases hj : j = i
    · subst hj
      rw [Function.update_self]
      refine iff_of_true rfl ?_
      split <;> simp
    · rw [Function.update_of_ne hj]
      split
      · rw [Function.update_of_ne hj]
        exact h j
      · rw [Function.update_of_ne hj]
        exact h j
  · exact h j

theorem enqueueTaskRt_rtOK (h : RtOK s) (hl : Linked on saved s) (hp : on p = false)
    (hrt : (s.task p).schedClass = .rt) (flags : QueueFlags)
    (hsaved : saved = if moveEntity flags then none else some p) :
    RtOK (enqueueTaskRt s p flags) := by
  obtain ⟨i, hi⟩ := hl.rt_level hrt
  have hoff : (s.task p).rt.onRq = false := by
    have := hl.rtOn p
    simpa [hp] using this
  have honly := enqueueTaskRt_onlyRt s p flags
  have hcount := ncard_rtCounted_insert h.finite honly.frame honly.owns.self.policy hoff
    (enqueueTaskRt_onRq s p flags)
  unfold RtOK
  rw [enqueueTaskRt_rtRq hoff hi flags]
  refine ⟨?_, ?_, enqueueOnce_bits h.bits i p (s.task p).policy flags,
    rtCounted_finite_of_frame h.finite honly.frame, ?_, ?_, ?_, by simp [RtRq.enqueueOnce, Sys.rtRq]⟩
  · -- The task goes to the list of its priority, or is there already.
    intro q j hmem
    rw [honly.prio q]
    rcases (enqueueOnce_mem (s.task p).policy).mp hmem with hold | ⟨-, rfl, rfl⟩
    · exact h.place q j hold
    · exact hi
  · intro q
    refine Iff.trans ?_ (exists_congr fun j => (enqueueOnce_mem (s.task p).policy).symm)
    by_cases hq : q = p
    · subst hq
      rw [enqueueTaskRt_onList hoff hi flags]
      by_cases hm : moveEntity flags = true
      · exact iff_of_true (if_pos hm) ⟨i, Or.inr ⟨hm, rfl, rfl⟩⟩
      · simp only [hm, Bool.false_eq_true, if_false, false_and, or_false]
        exact h.onList q
    · rw [honly.frame q hq]
      simp only [hq, and_false, or_false]
      exact h.onList q
  · rw [hcount]
    exact congrArg (· + 1) h.nr
  · rw [hcount]
    simp only [decide_eq_true_eq]
    exact congrArg (· + _) h.rr
  · simp only [RtRq.enqueueOnce, Nat.succ_ne_zero, if_false]
    by_cases hm : moveEntity flags = true
    · rw [if_pos hm] at hsaved
      subst hsaved
      rw [if_pos hm, schedFindFirstBit_set]
      exact congrArg (min · _) (h.highest_eq hl)
    · rw [if_neg hm] at hsaved
      subst hsaved
      rw [if_neg hm]
      exact h.highest_saved hl hi

theorem dequeueOnce_mem {r : RtRq} {i j : Fin 100} (policy : Policy) {flags : QueueFlags}
    {q : TaskId} : q ∈ (r.dequeueOnce i p policy flags).queue j ↔
      q ∈ r.queue j ∧ ¬(moveEntity flags = true ∧ q = p) := by
  simp only [RtRq.dequeueOnce]
  by_cases hm : moveEntity flags = true
  · simp only [hm, if_true, true_and]
    exact Levels.mem_del
  · simp [hm]

/-- Unlinking a task of list `i` empties no other list. -/
theorem dequeueOnce_bits {r : RtRq} (h : ∀ j, r.bitmap j = true ↔ r.queue j ≠ []) {i : Fin 100}
    (honly : ∀ j, p ∈ r.queue j → j = i) (policy : Policy) (flags : QueueFlags) (j : Fin 100) :
    (r.dequeueOnce i p policy flags).bitmap j = true ↔
      (r.dequeueOnce i p policy flags).queue j ≠ [] := by
  simp only [RtRq.dequeueOnce, RtRq.bitmapWithout]
  by_cases hm : moveEntity flags = true
  · simp only [hm, true_and, if_true]
    by_cases hj : j = i
    · subst hj
      split
      · rename_i hempty
        rw [Function.update_self]
        exact iff_of_false (by simp) (not_not.mpr hempty)
      · rename_i hne
        refine iff_of_true ((h j).mpr fun hnil => hne ?_) hne
        simp [Levels.del, hnil]
    · have hsame : Levels.del r.queue p j = r.queue j :=
        Levels.del_of_notMem fun hmem => hj (honly j hmem)
      rw [hsame]
      split
      · rw [Function.update_of_ne hj]
        exact h j
      · exact h j
  · simp only [hm, Bool.false_eq_true, false_and, if_false]
    exact h j

/-- Another task's priority stays the best, whatever happens to this bit. -/
theorem dequeueOnce_highest {r : RtRq}
    (h : r.highestPrio = if r.nrRunning = 0 then maxRtPrio else schedFindFirstBit r.bitmap)
    (i : Fin 100) (p : TaskId) (policy : Policy) (flags : QueueFlags) :
    (r.dequeueOnce i p policy flags).highestPrio
      = if (r.dequeueOnce i p policy flags).nrRunning = 0 then maxRtPrio
        else schedFindFirstBit (r.dequeueOnce i p policy flags).bitmap := by
  show (if r.nrRunning - 1 = 0 then maxRtPrio
      else if i.val = r.highestPrio then schedFindFirstBit (r.bitmapWithout i p flags)
      else r.highestPrio)
    = if r.nrRunning - 1 = 0 then maxRtPrio else schedFindFirstBit (r.bitmapWithout i p flags)
  by_cases hzero : r.nrRunning - 1 = 0
  · rw [if_pos hzero, if_pos hzero]
  · rw [if_neg hzero, if_neg hzero]
    split
    · rfl
    · rename_i hne
      rw [if_neg (by omega)] at h
      rw [h] at hne ⊢
      unfold RtRq.bitmapWithout
      split
      · exact (schedFindFirstBit_clear hne).symm
      · rfl

theorem dequeueRtEntity_rtOK (h : RtOK s) (hl : Linked on none s) (hp : on p = true)
    (hrt : (s.task p).schedClass = .rt) (flags : QueueFlags) :
    RtOK (dequeueRtEntity s p flags) := by
  obtain ⟨i, hi⟩ := hl.rt_level hrt
  have hon : (s.task p).rt.onRq = true := (hl.rtOn p).mpr ⟨hp, hrt⟩
  have honly := dequeueRtEntity_onlyRt s p flags
  have hcount := ncard_rtCounted_erase honly.frame hon (dequeueRtEntity_lists flags hon).1
  have hlist : ∀ j, p ∈ s.rtQueue j → j = i := fun j hj =>
    Option.some.inj ((h.place p j hj).symm.trans hi)
  unfold RtOK
  rw [dequeueRtEntity_rtRq hon hi flags]
  refine ⟨?_, ?_, dequeueOnce_bits h.bits hlist (s.task p).policy flags,
    rtCounted_finite_of_frame h.finite honly.frame, ?_, ?_,
    dequeueOnce_highest h.highest i p (s.task p).policy flags, ?_⟩
  · intro q j hmem
    rw [honly.prio q]
    exact h.place q j ((dequeueOnce_mem (s.task p).policy).mp hmem).1
  · intro q
    refine Iff.trans ?_ (exists_congr fun j => (dequeueOnce_mem (s.task p).policy).symm)
    by_cases hq : q = p
    · subst hq
      rw [dequeueRtEntity_onList hon flags]
      by_cases hm : moveEntity flags = true
      · simp [hm]
      · simp only [hm, Bool.false_eq_true, if_false, not_false_eq_true, and_true]
        exact h.onList q
    · rw [honly.frame q hq]
      simp only [hq, and_false, not_false_eq_true, and_true]
      exact h.onList q
  · rw [hcount]
    exact congrArg (· - 1) h.nr
  · rw [hcount]
    simp only [decide_eq_true_eq]
    exact congrArg (· - _) h.rr
  · show (!s.rtThrottled && decide (s.rtNrRunning - 1 ≠ 0)) = true ↔
      s.rtNrRunning - 1 ≠ 0 ∧ s.rtThrottled = false
    simp [and_comm]

/-- Of a task only its priority, its policy and the two marks of its entity matter. -/
theorem RtOK.of_eq (h : RtOK s) (hrq : s'.rtRq = s.rtRq)
    (hprio : ∀ q, (s'.task q).prio = (s.task q).prio)
    (hpol : ∀ q, (s'.task q).policy = (s.task q).policy)
    (hon : ∀ q, (s'.task q).rt.onRq = (s.task q).rt.onRq)
    (hlist : ∀ q, (s'.task q).rt.onList = (s.task q).rt.onList) : RtOK s' := by
  have hcounted : ∀ pol, rtCounted s'.task pol = rtCounted s.task pol := by
    intro pol
    unfold rtCounted
    simp only [hpol, hon]
  unfold RtOK
  rw [hrq]
  refine ⟨?_, ?_, h.bits, ?_, ?_, ?_, h.highest, h.queued⟩
  · intro q i hmem
    rw [hprio q]
    exact h.place q i hmem
  · intro q
    rw [hlist q]
    exact h.onList q
  · rw [hcounted]
    exact h.finite
  · rw [hcounted]
    exact h.nr
  · rw [hcounted]
    exact h.rr

theorem RtOK.of_task_eq (h : RtOK s) (hrq : s'.rtRq = s.rtRq) (htask : s'.task = s.task) :
    RtOK s' :=
  h.of_eq hrq (fun q => by rw [htask]) (fun q => by rw [htask]) (fun q => by rw [htask])
    fun q => by rw [htask]

/-- A task that is not counted may change, as long as it keeps its priority if it is on a
list. -/
theorem RtOK.of_frame (h : RtOK s) (hrq : s'.rtRq = s.rtRq)
    (hframe : ∀ q, q ≠ p → s'.task q = s.task q) (hoff : (s.task p).rt.onRq = false)
    (hoff' : (s'.task p).rt.onRq = false) (hlist : (s'.task p).rt.onList = (s.task p).rt.onList)
    (hprio : ∀ i, p ∈ s.rtQueue i → (s'.task p).prio = (s.task p).prio) : RtOK s' := by
  have hcounted : ∀ pol, rtCounted s'.task pol = rtCounted s.task pol := by
    intro pol
    ext q
    by_cases hq : q = p
    · subst hq
      simp [rtCounted, hoff, hoff']
    · simp [rtCounted, hframe q hq]
  unfold RtOK
  rw [hrq]
  refine ⟨?_, ?_, h.bits, ?_, ?_, ?_, h.highest, h.queued⟩
  · intro q i hmem
    by_cases hq : q = p
    · subst hq
      rw [hprio i hmem]
      exact h.place q i hmem
    · rw [hframe q hq]
      exact h.place q i hmem
  · intro q
    by_cases hq : q = p
    · subst hq
      rw [hlist]
      exact h.onList q
    · rw [hframe q hq]
      exact h.onList q
  · rw [hcounted]
    exact h.finite
  · rw [hcounted]
    exact h.nr
  · rw [hcounted]
    exact h.rr

/-- Rewriting what the real-time class does not look at. -/
theorem RtOK.modify_same (h : RtOK s) {f : TaskStruct → TaskStruct}
    (hprio : (f (s.task p)).prio = (s.task p).prio)
    (hpol : (f (s.task p)).policy = (s.task p).policy)
    (hon : (f (s.task p)).rt.onRq = (s.task p).rt.onRq)
    (hlist : (f (s.task p)).rt.onList = (s.task p).rt.onList) : RtOK (s.modify p f) := by
  have hself : ∀ {β : Type} (g : TaskStruct → β), g (f (s.task p)) = g (s.task p) →
      ∀ q, g ((s.modify p f).task q) = g (s.task q) := by
    intro β g hg q
    by_cases hq : q = p
    · subst hq
      rw [s.modify_task_self]
      exact hg
    · rw [s.modify_task_of_ne f hq]
  exact h.of_eq rfl (hself TaskStruct.prio hprio) (hself TaskStruct.policy hpol)
    (hself (fun t => t.rt.onRq) hon) (hself (fun t => t.rt.onList) hlist)

/-- A counted entity is on the list of its priority. -/
def OnItsList (s : Sys X) (p : TaskId) : Prop :=
  (s.task p).rt.onRq = true → ∀ i, rtLevel? (s.task p).prio = some i → p ∈ s.rtQueue i

theorem RtOK.onItsList (h : RtOK s) (hl : Linked on saved s) (p : TaskId) : OnItsList s p := by
  intro hon i hi
  have hcount := hl.rt p
  rw [if_pos (Or.inl ((hl.rtOn p).mp hon))] at hcount
  obtain ⟨j, hj⟩ := Levels.count_ne_zero.mp (by omega : Levels.count s.rtQueue p ≠ 0)
  have hji : j = i := Option.some.inj ((h.place p j hj).symm.trans hi)
  rw [← hji]
  exact hj

theorem requeueTaskRt_rtOK (h : RtOK s) (hlist : OnItsList s p) : RtOK (requeueTaskRt s p) := by
  unfold requeueTaskRt
  split
  · rename_i hon
    split
    · exact h
    · rename_i i hi
      refine ⟨?_, ?_, ?_, h.finite, h.nr, h.rr, h.highest, h.queued⟩
      · intro q j hmem
        rcases Levels.mem_moveTail.mp hmem with ⟨hold, -⟩ | ⟨rfl, rfl⟩
        · exact h.place q j hold
        · exact hi
      · intro q
        refine (h.onList q).trans ⟨?_, ?_⟩
        · intro hex
          obtain ⟨j, hj⟩ := hex
          by_cases hq : q = p
          · exact ⟨i, Levels.mem_moveTail.mpr (Or.inr ⟨rfl, hq⟩)⟩
          · exact ⟨j, Levels.mem_moveTail.mpr (Or.inl ⟨hj, hq⟩)⟩
        · intro hex
          obtain ⟨j, hj⟩ := hex
          rcases Levels.mem_moveTail.mp hj with ⟨hold, -⟩ | ⟨-, rfl⟩
          · exact ⟨j, hold⟩
          · exact ⟨i, hlist hon i hi⟩
      · -- The task leaves its list and joins it again, and is on no other.
        intro j
        refine (h.bits j).trans ?_
        show s.rtQueue j ≠ [] ↔ Levels.moveTail s.rtQueue i p j ≠ []
        unfold Levels.moveTail Levels.addTail
        by_cases hj : j = i
        · subst hj
          rw [Function.update_self]
          exact iff_of_true (List.ne_nil_of_mem (hlist hon j hi)) (by simp)
        · have hnot : p ∉ s.rtQueue j := fun hmem =>
            hj (Option.some.inj ((h.place p j hmem).symm.trans hi))
          rw [Function.update_of_ne hj, Levels.del_of_notMem hnot]
  · exact h

/-! ### Throttling -/

/-- Throttling is a matter of the two flags. -/
theorem RtOK.timed (h : RtOK s) (ht : Timed s s')
    (hq : s'.rtQueued = true ↔ s'.rtNrRunning ≠ 0 ∧ s'.rtThrottled = false) : RtOK s' := by
  have hqueue : s'.rtRq.queue = s.rtRq.queue := ht.rtQueue
  have hbitmap : s'.rtRq.bitmap = s.rtRq.bitmap := ht.rtBitmap
  have hnr : s'.rtRq.nrRunning = s.rtRq.nrRunning := ht.rtNrRunning
  have hrr : s'.rtRq.rrNrRunning = s.rtRq.rrNrRunning := ht.rrNrRunning
  have hhighest : s'.rtRq.highestPrio = s.rtRq.highestPrio := ht.rtHighestPrio
  unfold RtOK
  rw [ht.task]
  refine ⟨?_, ?_, ?_, h.finite, ?_, ?_, ?_, hq⟩
  · rw [hqueue]
    exact h.place
  · rw [hqueue]
    exact h.onList
  · rw [hqueue, hbitmap]
    exact h.bits
  · rw [hnr]
    exact h.nr
  · rw [hrr]
    exact h.rr
  · rw [hhighest, hnr, hbitmap]
    exact h.highest

theorem updateCurrRt_rtOK (other : OtherClasses X) (h : RtOK s) : RtOK (updateCurrRt other s) :=
  h.timed (updateCurrRt_timed other s) (updateCurrRt_queued other h.queued)

theorem doSchedRtPeriodTimer_rtOK (other : OtherClasses X) (h : RtOK s) :
    RtOK (doSchedRtPeriodTimer other s) :=
  h.timed (doSchedRtPeriodTimer_timed other s) (doSchedRtPeriodTimer_queued other h.queued)

theorem dequeueTaskRt_rtOK (other : OtherClasses X) (h : RtOK s) (hl : Linked on none s)
    (hp : on p = true) (hrt : (s.task p).schedClass = .rt) (flags : QueueFlags) :
    RtOK (dequeueTaskRt other s p flags) := by
  have hquiet := (updateCurrRt_timed other s).toQuiet
  exact dequeueRtEntity_rtOK (updateCurrRt_rtOK other h) (hl.of_quiet hquiet) hp
    (by rw [hquiet.task]; exact hrt) flags

theorem taskTickRt_rtOK (other : OtherClasses X) (h : RtOK s) (hl : Linked on saved s) :
    RtOK (taskTickRt other s p) := by
  -- The slice is in no field, and does not move the task.
  have hslice : ∀ (u : Sys X) (n : Nat), RtOK u ∧ OnItsList u p →
      RtOK (u.modify p fun t => { t with rt := { t.rt with timeSlice := n } }) ∧
        OnItsList (u.modify p fun t => { t with rt := { t.rt with timeSlice := n } }) p := by
    intro u n hu
    refine ⟨hu.1.modify_same rfl rfl rfl rfl, ?_⟩
    intro hon i hi
    rw [u.modify_task_self] at hon hi
    exact hu.2 hon i hi
  have hl := hl.of_quiet (updateCurrRt_timed other s).toQuiet
  have h := updateCurrRt_rtOK other h
  unfold taskTickRt
  generalize updateCurrRt other s = s at h hl
  simp only
  split
  · exact h
  · have h1 := hslice s (((s.task p).rt.timeSlice + (2 ^ 32 - 1)) % 2 ^ 32) ⟨h, h.onItsList hl p⟩
    have h2 := hslice _ other.rrTimeslice h1
    split
    · exact h1.1
    · split
      · exact (requeueTaskRt_rtOK h2.1 h2.2).of_task_eq rfl rfl
      · exact h2.1

/-! ### What the other classes leave alone -/

theorem putPrevTask_rtOK (h : RtOK s) (p : TaskId) : RtOK (putPrevTask other s p) := by
  unfold putPrevTask
  split
  · exact h
  · exact updateCurrRt_rtOK other h
  · exact h.of_task_eq rfl rfl

theorem updateCurr_rtOK (h : RtOK s) (p : TaskId) : RtOK (updateCurr other s p) := by
  unfold updateCurr
  split
  · exact h
  · exact updateCurrRt_rtOK other h
  · exact h.of_task_eq rfl rfl

theorem setCurrIf_rtRq (s : Sys X) (p : TaskId) (running : Bool) :
    (setCurrIf other s p running).rtRq = s.rtRq := by
  unfold setCurrIf setCurrTask
  split
  · split <;> rfl
  · rfl

theorem setLoadWeight_rtRq (s : Sys X) (p : TaskId) (updateLoad : Bool) :
    (setLoadWeight other s p updateLoad).rtRq = s.rtRq := by
  unfold setLoadWeight
  split
  · rfl
  · split <;> rfl

theorem checkPreemptCurr_rtRq (s : Sys X) (p : TaskId) (flags : Nat) :
    (checkPreemptCurr other s p flags).rtRq = s.rtRq := by
  unfold checkPreemptCurr checkPreemptCurrTs checkPreemptCurrRt
  repeat' split
  all_goals rfl

theorem checkClassChanged_rtRq (s : Sys X) (p : TaskId) (prevClass : SchedClass)
    (oldprio : Int) : (checkClassChanged other s p prevClass oldprio).rtRq = s.rtRq := by
  have hfrom : (switchedFrom other s prevClass p).rtRq = s.rtRq := by
    unfold switchedFrom
    split <;> rfl
  have hto : ∀ u : Sys X, (switchedTo other u p).rtRq = u.rtRq := by
    intro u
    unfold switchedTo switchedToTs switchedToRt
    repeat' split
    all_goals rfl
  unfold checkClassChanged
  split
  · rw [hto, hfrom]
  · split
    · unfold prioChanged prioChangedTs prioChangedRt
      repeat' split
      all_goals rfl
    · rfl

theorem tsListAddTail_rtRq (s : Sys X) (p : TaskId) (idx : Int) :
    (tsListAddTail s p idx).rtRq = s.rtRq := by
  unfold tsListAddTail
  split <;> rfl

theorem enqueueTaskTs_rtRq (s : Sys X) (p : TaskId) (flags : QueueFlags) :
    (enqueueTaskTs s p flags).rtRq = s.rtRq := by
  unfold enqueueTaskTs
  dsimp only
  rw [tsListAddTail_rtRq]
  split <;> rfl

theorem tsListAddTail_rt (s : Sys X) (p : TaskId) (idx : Int) (q : TaskId) :
    ((tsListAddTail s p idx).task q).rt = (s.task q).rt := by
  unfold tsListAddTail
  split <;> rfl

theorem enqueueTaskTs_rt (s : Sys X) (p : TaskId) (flags : QueueFlags) :
    ((enqueueTaskTs s p flags).task p).rt = (s.task p).rt := by
  unfold enqueueTaskTs
  dsimp only
  rw [tsListAddTail_rt]
  split
  · rw [Sys.modify_task_self]
    rfl
  · rfl

theorem taskTickTs_rt (h : Linked on saved s) (hp : on p = true)
    (hts : (s.task p).schedClass = .ts) : ((taskTickTs s p).task p).rt = (s.task p).rt := by
  have hslice := (h.tasks p).slice
  by_cases hone : (s.task p).ts.timeSlice = 1
  · obtain ⟨i, hi⟩ := tsLevel?_of_range (((h.tasks p).expired hts).ts_range hts)
    rw [taskTickTs_expired ((h.tasks p).tsPolicy hts) ((h.tasks p).ts_range hts)
      (h.count_ts hp hts) hone hi]
    show ((s.modify p expired).task p).rt = _
    rw [s.modify_task_self]
    rfl
  · rw [taskTickTs_running ((h.tasks p).tsPolicy hts) (by omega), s.modify_task_self]

theorem taskTickTs_rtRq (s : Sys X) (p : TaskId) : (taskTickTs s p).rtRq = s.rtRq := by
  unfold taskTickTs
  split
  · rfl
  · dsimp only
    split
    · rfl
    · exact tsListAddTail_rtRq _ p _

/-- What no class breaks when it is asked, the walk and `pick_next_task` keep. -/
theorem classWalk_keeps {P : Sys X → Prop} {prev : TaskId}
    (hP : ∀ u cls, P u → P (pickClass other u prev cls).2) {r : TaskId × Sys X} :
    ∀ (classes : List SchedClass) {u : Sys X}, P u → classWalk other u prev classes = some r →
      P r.2 := by
  intro classes
  induction classes with
  | nil =>
      intro u _ hr
      simp [classWalk] at hr
  | cons cls rest ih =>
      intro u hu hr
      have hcls := hP u cls hu
      unfold classWalk at hr
      split at hr
      · rename_i q v heq
        cases hr
        rw [heq] at hcls
        exact hcls
      · rename_i v heq
        rw [heq] at hcls
        exact ih hcls hr

theorem pickNextTask_keeps {P : Sys X → Prop} {prev : TaskId}
    (hP : ∀ u cls, P u → P (pickClass other u prev cls).2) (h : P s) {r : TaskId × Sys X}
    (hr : pickNextTask other s prev = some r) : P r.2 := by
  unfold pickNextTask at hr
  split at hr
  · exact classWalk_keeps hP _ h hr
  · exact classWalk_keeps hP _ h hr

theorem putPrevIf_rtOK (h : RtOK s) (prev : TaskId) (answer : Option TaskId) :
    RtOK (putPrevIf other s prev answer).2 := by
  unfold putPrevIf
  dsimp only
  split
  · exact h
  · exact putPrevTask_rtOK h prev

theorem pickNextTaskRt_rtOK (h : RtOK s) (prev : TaskId) :
    RtOK (pickNextTaskRt other s prev).2 := by
  unfold pickNextTaskRt
  dsimp only
  split
  · exact updateCurrRt_rtOK other h
  · exact h

theorem pickClass_rtOK (h : RtOK s) (prev : TaskId) (cls : SchedClass) :
    RtOK (pickClass other s prev cls).2 := by
  unfold pickClass
  split
  · exact putPrevIf_rtOK h prev _
  · exact putPrevIf_rtOK (pickNextTaskRt_rtOK h prev) prev _
  · exact putPrevIf_rtOK h prev _
  · split
    · exact h
    · exact h.of_task_eq rfl rfl

theorem pickNextTask_rtOK (h : RtOK s) {prev : TaskId} {r : TaskId × Sys X}
    (hr : pickNextTask other s prev = some r) : RtOK r.2 :=
  pickNextTask_keeps (P := RtOK) (fun _ cls hu => pickClass_rtOK hu prev cls) h hr

end Sched
