/-
Tasks that never sleep sink to the bottom and then take turns.

Nothing happens but timer interrupts (`timerTick`).  The argument has three parts.

First, the running task need not be the one that would be picked.  Its slice is at
most sixteen ticks, and when it is used up, or earlier if a reschedule is due, the
right task runs (`settles`).

From then on the running task heads the highest list.  Each tick takes one off its
slice, and when the slice is used up the task sinks at least one list, which a weight
of 17 for a list makes up for the new slice of at most 16.  So the sum of 17 times the
list and the slice, over all tasks, goes down until everyone is on list 0.

There an expired task goes to the back of the same list with a slice of 16.  Once
everyone has expired there, all slices are 16 and the list rotates every 16 ticks.
-/
import KernelProgramming.Lib.Rounds
import KernelProgramming.Proofs.Sched.Dispatch
import KernelProgramming.Proofs.Sched.Placement

namespace Sched

variable {X : Type} {other : OtherClasses X} {s : Sys X} {tasks : Finset TaskId}

/-- The time-sharing tasks `tasks`, one of them running, and nobody who comes before them. -/
structure Spinning (tasks : Finset TaskId) (s : Sys X) : Prop where
  linked : ∀ q, Levels.count s.tsQueue q = if q ∈ tasks then 1 else 0
  level : AtLevel s
  cls : ∀ q ∈ tasks, (s.task q).schedClass = .ts
  policy : ∀ q ∈ tasks, (s.task q).policy = .ts
  state : ∀ q ∈ tasks, (s.task q).state = .running
  prio : ∀ q ∈ tasks, 100 ≤ (s.task q).prio ∧ (s.task q).prio ≤ 139
  slice : ∀ q ∈ tasks, 1 ≤ (s.task q).ts.timeSlice ∧ (s.task q).ts.timeSlice ≤ 16
  curr : s.curr ∈ tasks
  noHigher : ∀ q, (s.task q).onRq = true →
    (s.task q).schedClass ≠ .stop ∧ (s.task q).schedClass ≠ .dl
  noRt : s.rtQueued = false

/-- The running task is the one that would be picked. -/
def Settled (s : Sys X) : Prop :=
  s.needResched = false ∧ pickNextTaskTs s = some s.curr

/-- Whoever is on a list is one of the tasks. -/
theorem Spinning.mem (h : Spinning tasks s) {q : TaskId} {i : Fin 40} (hq : q ∈ s.tsQueue i) :
    q ∈ tasks := by
  by_contra hne
  have hzero := h.linked q
  rw [if_neg hne] at hzero
  exact Levels.count_eq_zero.mp hzero i hq

theorem Spinning.on_list (h : Spinning tasks s) {q : TaskId} (hq : q ∈ tasks) :
    ∃ i, q ∈ s.tsQueue i := by
  have hone := h.linked q
  rw [if_pos hq] at hone
  exact Levels.count_ne_zero.mp (by omega)

/-- Somebody can be picked. -/
theorem Spinning.pick (h : Spinning tasks s) : ∃ q, pickNextTaskTs s = some q ∧ q ∈ tasks := by
  obtain ⟨i, hi⟩ := h.on_list h.curr
  cases hpick : pickNextTaskTs s with
  | none =>
      rw [Levels.top?_eq_none.mp hpick i] at hi
      simp at hi
  | some q =>
      obtain ⟨j, hj⟩ := pickNextTaskTs_mem hpick
      exact ⟨q, rfl, h.mem hj⟩

/-- Rewriting a task and relinking it leaves the tasks spinning. -/
theorem Spinning.update (h : Spinning tasks s) {p : TaskId} {f : TaskStruct → TaskStruct}
    (hsame : SameTask (s.task p) (f (s.task p)))
    (hprio : 100 ≤ (f (s.task p)).prio ∧ (f (s.task p)).prio ≤ 139)
    (hslice : 1 ≤ (f (s.task p)).ts.timeSlice ∧ (f (s.task p)).ts.timeSlice ≤ 16)
    (queue : Levels.Queue 40 TaskId)
    (hcount : ∀ q, Levels.count queue q = Levels.count s.tsQueue q)
    (hlevel : AtLevel { s.modify p f with tsQueue := queue }) (mark : Bool) {next : TaskId}
    (hnext : next ∈ tasks) :
    Spinning tasks
      { s.modify p f with tsQueue := queue, needResched := mark, curr := next } := by
  have hall : ∀ q, SameTask (s.task q) ((s.modify p f).task q) :=
    (modify_owns s p f hsame).sameTask
  refine ⟨?_, hlevel, ?_, ?_, ?_, ?_, ?_, hnext, ?_, h.noRt⟩
  · intro q
    show Levels.count queue q = _
    rw [hcount q]
    exact h.linked q
  · intro q hq
    exact (hall q).schedClass.trans (h.cls q hq)
  · intro q hq
    exact (hall q).policy.trans (h.policy q hq)
  · intro q hq
    exact (hall q).state.trans (h.state q hq)
  · intro q hq
    show 100 ≤ ((s.modify p f).task q).prio ∧ ((s.modify p f).task q).prio ≤ 139
    by_cases hqp : q = p
    · subst hqp
      rw [s.modify_task_self]
      exact hprio
    · rw [s.modify_task_of_ne f hqp]
      exact h.prio q hq
  · intro q hq
    show 1 ≤ ((s.modify p f).task q).ts.timeSlice ∧ ((s.modify p f).task q).ts.timeSlice ≤ 16
    by_cases hqp : q = p
    · subst hqp
      rw [s.modify_task_self]
      exact hslice
    · rw [s.modify_task_of_ne f hqp]
      exact h.slice q hq
  · intro q hon
    have hon' : ((s.modify p f).task q).onRq = true := hon
    rw [(hall q).onRq] at hon'
    show ((s.modify p f).task q).schedClass ≠ .stop ∧ ((s.modify p f).task q).schedClass ≠ .dl
    rw [(hall q).schedClass]
    exact h.noHigher q hon'

/-! ### One timer interrupt -/

/-- One tick off the slice of the running task. -/
def spent (t : TaskStruct) : TaskStruct := { t with ts := { timeSlice := t.ts.timeSlice - 1 } }

/-- `schedule` switches to the task on top of the lists. -/
theorem schedule_spinning (h : Spinning tasks s) {q : TaskId} (hq : pickNextTaskTs s = some q) :
    schedule other s false false = { s with needResched := false, curr := q } := by
  have hprev : deactivatePrev other s false false = s := by
    unfold deactivatePrev
    rw [if_neg]
    rintro ⟨-, hne⟩
    exact hne (h.state s.curr h.curr)
  have hcls := h.cls s.curr h.curr
  have hput : putPrevTask other s s.curr = s := by
    unfold putPrevTask
    rw [hcls]
  obtain ⟨s', -, hsame, hwalk⟩ := classWalk_from_ts other h.noHigher h.noRt s.curr
  rw [hsame (by simp [hcls])] at hwalk
  have hpick : pickNextTask other s s.curr = some (q, s) := by
    unfold pickNextTask
    rw [if_neg (by rw [hcls]; simp), hwalk, classWalk]
    simp [pickClass, putPrevIf, hq, hput]
  unfold schedule
  simp only
  rw [hprev, hpick]

theorem Spinning.spend (h : Spinning tasks s) (hslice : 2 ≤ (s.task s.curr).ts.timeSlice)
    (mark : Bool) {next : TaskId} (hnext : next ∈ tasks) :
    Spinning tasks { s.modify s.curr spent with needResched := mark, curr := next } := by
  have hold := h.slice s.curr h.curr
  exact h.update ⟨rfl, rfl, rfl, rfl, rfl, rfl, rfl, rfl, rfl, rfl⟩ (h.prio s.curr h.curr)
    (show 1 ≤ _ - 1 ∧ _ - 1 ≤ 16 by omega) s.tsQueue (fun _ => rfl)
    (h.level.modify_same (f := spent) rfl) mark hnext

theorem schedulerTick_spinning (h : Spinning tasks s)
    (hslice : 2 ≤ (s.task s.curr).ts.timeSlice) :
    schedulerTick other s = s.modify s.curr spent := by
  unfold schedulerTick taskTick
  rw [h.cls s.curr h.curr]
  exact taskTickTs_running (h.policy s.curr h.curr) ⟨hslice, (h.slice s.curr h.curr).2⟩

/-- A tick that leaves something of the slice, and no reschedule is due. -/
theorem timerTick_running (h : Spinning tasks s) (hslice : 2 ≤ (s.task s.curr).ts.timeSlice)
    (hmark : s.needResched = false) : timerTick other s = s.modify s.curr spent := by
  unfold timerTick
  simp only
  rw [schedulerTick_spinning h hslice]
  rw [if_neg]
  show ¬s.needResched = true
  rw [hmark]
  simp

/-- The same, when a reschedule is due. -/
theorem timerTick_marked (h : Spinning tasks s) (hslice : 2 ≤ (s.task s.curr).ts.timeSlice)
    (hmark : s.needResched = true) {q : TaskId} (hq : pickNextTaskTs s = some q) :
    timerTick other s = { s.modify s.curr spent with needResched := false, curr := q } := by
  unfold timerTick
  simp only
  rw [schedulerTick_spinning h hslice,
    if_pos (show (s.modify s.curr spent).needResched = true from hmark)]
  exact schedule_spinning (h.spend hslice s.needResched h.curr) hq

/-- The list of a task whose slice is used up. -/
theorem Spinning.expired_level (h : Spinning tasks s) :
    ∃ i, tsLevel? (139 - (expired (s.task s.curr)).prio) = some i :=
  tsLevel?_of_range (getNewPrio_range (h.prio s.curr h.curr) .expire).2

theorem Spinning.expire (h : Spinning tasks s) {i : Fin 40}
    (hi : tsLevel? (139 - (expired (s.task s.curr)).prio) = some i) (mark : Bool) {next : TaskId}
    (hnext : next ∈ tasks) :
    Spinning tasks { s.modify s.curr expired with
      tsQueue := Levels.moveTail s.tsQueue i s.curr
      needResched := mark
      curr := next } := by
  have hnew := getNewPrio_range (h.prio s.curr h.curr) .expire
  refine h.update ⟨rfl, rfl, rfl, rfl, rfl, rfl, rfl, rfl, rfl, rfl⟩ hnew.2
    (getNumTicks_range hnew.2).2 _ ?_ ?_ mark hnext
  · intro q
    rw [Levels.count_moveTail]
    by_cases hq : q = s.curr
    · rw [if_pos hq, hq, h.linked, if_pos h.curr]
    · rw [if_neg hq]
  · intro q j hmem
    rcases Levels.mem_moveTail.mp hmem with ⟨hold, hne⟩ | ⟨rfl, rfl⟩
    · show tsLevel? (139 - ((s.modify s.curr expired).task q).prio) = some j
      rw [s.modify_task_of_ne _ hne]
      exact h.level q j hold
    · show tsLevel? (139 - ((s.modify s.curr expired).task s.curr).prio) = some j
      rw [s.modify_task_self]
      exact hi

/-- A tick that uses the slice up. -/
theorem timerTick_expired (h : Spinning tasks s) (hslice : (s.task s.curr).ts.timeSlice = 1)
    {i : Fin 40} (hi : tsLevel? (139 - (expired (s.task s.curr)).prio) = some i) {q : TaskId}
    (hq : Levels.top? (Levels.moveTail s.tsQueue i s.curr) = some q) :
    timerTick other s
      = { s.modify s.curr expired with
          tsQueue := Levels.moveTail s.tsQueue i s.curr
          needResched := false
          curr := q } := by
  have htick : schedulerTick other s
      = { s.modify s.curr expired with
          tsQueue := Levels.moveTail s.tsQueue i s.curr
          needResched := true } := by
    unfold schedulerTick taskTick
    rw [h.cls s.curr h.curr]
    refine taskTickTs_expired (h.policy s.curr h.curr) (h.prio s.curr h.curr) ?_ hslice hi
    rw [h.linked, if_pos h.curr]
    omega
  unfold timerTick
  simp only
  rw [htick, if_pos rfl]
  exact schedule_spinning (h.expire hi true h.curr) hq

/-- Somebody is on top after an expired task has been moved. -/
theorem Spinning.top_after_expire (h : Spinning tasks s) {i : Fin 40}
    (hi : tsLevel? (139 - (expired (s.task s.curr)).prio) = some i) :
    ∃ q, Levels.top? (Levels.moveTail s.tsQueue i s.curr) = some q ∧ q ∈ tasks :=
  (h.expire hi false h.curr).pick

/-! ### The right task runs -/

variable (other)

/-- A task that is running rightly goes on running or makes way for the right one. -/
theorem timerTick_settled (h : Spinning tasks s) (hset : Settled s) :
    Spinning tasks (timerTick other s) ∧ Settled (timerTick other s) := by
  have hold := h.slice s.curr h.curr
  by_cases hone : (s.task s.curr).ts.timeSlice = 1
  · obtain ⟨i, hi⟩ := h.expired_level
    obtain ⟨q, hq, hmem⟩ := h.top_after_expire hi
    rw [timerTick_expired h hone hi hq]
    exact ⟨h.expire hi false hmem, rfl, hq⟩
  · rw [timerTick_running h (by omega) hset.1]
    exact ⟨h.spend (by omega) s.needResched h.curr, hset.1, hset.2⟩

/-- Within a slice the right task runs. -/
theorem settles : ∀ (n : Nat) (s : Sys X), Spinning tasks s →
    (s.task s.curr).ts.timeSlice = n →
    ∃ k, Spinning tasks ((timerTick other)^[k] s) ∧ Settled ((timerTick other)^[k] s) := by
  intro n
  induction n with
  | zero =>
      intro s h hn
      have := h.slice s.curr h.curr
      omega
  | succ n ih =>
      intro s h hn
      by_cases hone : (s.task s.curr).ts.timeSlice = 1
      · obtain ⟨i, hi⟩ := h.expired_level
        obtain ⟨q, hq, hmem⟩ := h.top_after_expire hi
        refine ⟨1, ?_⟩
        rw [Function.iterate_one, timerTick_expired h hone hi hq]
        exact ⟨h.expire hi false hmem, rfl, hq⟩
      · have htwo : 2 ≤ (s.task s.curr).ts.timeSlice := by
          have := h.slice s.curr h.curr
          omega
        cases hmark : s.needResched with
        | true =>
            obtain ⟨q, hq, hmem⟩ := h.pick
            refine ⟨1, ?_⟩
            rw [Function.iterate_one, timerTick_marked h htwo hmark hq]
            exact ⟨h.spend htwo false hmem, rfl, hq⟩
        | false =>
            have hnext := h.spend htwo s.needResched h.curr
            obtain ⟨k, hk⟩ := ih (s.modify s.curr spent) hnext
              (by rw [s.modify_curr, s.modify_task_self]; show _ - 1 = n; omega)
            refine ⟨k + 1, ?_⟩
            rw [Function.iterate_succ_apply, timerTick_running h htwo hmark]
            exact hk

/-! ### Everyone sinks -/

/-- What a task has before it until it is at the bottom with its slice used up. -/
def weight (t : TaskStruct) : Nat := 17 * (139 - t.prio).toNat + t.ts.timeSlice

/-- Everyone is at the bottom. -/
def AllBottom (tasks : Finset TaskId) (s : Sys X) : Prop :=
  ∀ q ∈ tasks, (s.task q).prio = 139

theorem getNewPrio_expire {prio : Int} (h : 100 ≤ prio ∧ prio ≤ 139) :
    prio < (getNewPrio prio .expire).1 ∨ prio = 139 ∧ (getNewPrio prio .expire).1 = 139 := by
  have hidx : ¬(139 - prio < 0 ∨ 139 - prio > 39) := by omega
  unfold getNewPrio
  simp only [if_neg hidx]
  split <;> omega

theorem weight_spent {t : TaskStruct} (h : 1 ≤ t.ts.timeSlice) : weight (spent t) < weight t := by
  show 17 * (139 - t.prio).toNat + (t.ts.timeSlice - 1) < 17 * (139 - t.prio).toNat + t.ts.timeSlice
  omega

/-- A task above the bottom sinks at least one list, and its new slice is at most 16. -/
theorem weight_expired {t : TaskStruct} (h : 100 ≤ t.prio ∧ t.prio < 139)
    (hslice : 1 ≤ t.ts.timeSlice) : weight (expired t) < weight t := by
  have hrange := getNewPrio_range (show 100 ≤ t.prio ∧ t.prio ≤ 139 by omega) .expire
  have hticks := getNumTicks_range hrange.2
  have hsink : t.prio < (getNewPrio t.prio .expire).1 := by
    rcases getNewPrio_expire (show 100 ≤ t.prio ∧ t.prio ≤ 139 by omega) with hlt | ⟨heq, -⟩
    · exact hlt
    · omega
  show 17 * (139 - (getNewPrio t.prio .expire).1).toNat
      + (getNumTicks (getNewPrio t.prio .expire).1).1 < 17 * (139 - t.prio).toNat + t.ts.timeSlice
  omega

theorem sum_weight_modify {p : TaskId} (hp : p ∈ tasks) {f : TaskStruct → TaskStruct}
    (hlt : weight (f (s.task p)) < weight (s.task p)) :
    ∑ q ∈ tasks, weight ((s.modify p f).task q) < ∑ q ∈ tasks, weight (s.task q) := by
  refine Finset.sum_lt_sum ?_ ⟨p, hp, ?_⟩
  · intro q hq
    by_cases hqp : q = p
    · rw [hqp, s.modify_task_self]
      exact hlt.le
    · rw [s.modify_task_of_ne f hqp]
  · rw [s.modify_task_self]
    exact hlt

/-- As long as somebody is above the bottom, the one who runs is. -/
theorem Spinning.curr_above (h : Spinning tasks s) (hset : Settled s)
    (hnot : ¬AllBottom tasks s) : (s.task s.curr).prio < 139 := by
  unfold AllBottom at hnot
  push Not at hnot
  obtain ⟨q, hq, hne⟩ := hnot
  obtain ⟨j, hj⟩ := h.on_list hq
  have hle := h.level.pick hset.2 hj
  have hrange := h.prio q hq
  omega

theorem timerTick_sinks (h : Spinning tasks s) (hset : Settled s) (hnot : ¬AllBottom tasks s) :
    ∑ q ∈ tasks, weight ((timerTick other s).task q) < ∑ q ∈ tasks, weight (s.task q) := by
  have hslice := h.slice s.curr h.curr
  have hprio := h.prio s.curr h.curr
  by_cases hone : (s.task s.curr).ts.timeSlice = 1
  · obtain ⟨i, hi⟩ := h.expired_level
    obtain ⟨q, hq, -⟩ := h.top_after_expire hi
    rw [timerTick_expired h hone hi hq]
    exact sum_weight_modify h.curr
      (weight_expired ⟨hprio.1, h.curr_above hset hnot⟩ (by omega))
  · rw [timerTick_running h (by omega) hset.1]
    exact sum_weight_modify h.curr (weight_spent (by omega))

/-- Everyone gets to the bottom. -/
theorem sinks (h : Spinning tasks s) :
    ∃ k, (Spinning tasks ((timerTick other)^[k] s) ∧ Settled ((timerTick other)^[k] s)) ∧
      AllBottom tasks ((timerTick other)^[k] s) := by
  obtain ⟨k, hk⟩ := settles other _ s h rfl
  obtain ⟨j, hj⟩ := Rounds.reaches (P := fun s => Spinning tasks s ∧ Settled s)
    (Q := AllBottom tasks) (fun s => ∑ q ∈ tasks, weight (s.task q))
    (fun s hs hnot => ⟨timerTick_settled other hs.1 hs.2, timerTick_sinks other hs.1 hs.2 hnot⟩)
    _ _ rfl hk
  refine ⟨j + k, ?_⟩
  rw [Function.iterate_add_apply]
  exact hj

/-- Whoever is at the bottom stays there. -/
theorem timerTick_allBottom (h : Spinning tasks s) (hset : Settled s) (hall : AllBottom tasks s) :
    AllBottom tasks (timerTick other s) := by
  have hslice := h.slice s.curr h.curr
  have hmodify : ∀ f : TaskStruct → TaskStruct, (f (s.task s.curr)).prio = 139 →
      AllBottom tasks (s.modify s.curr f) := by
    intro f hf q hq
    by_cases hqc : q = s.curr
    · rw [hqc, s.modify_task_self]
      exact hf
    · rw [s.modify_task_of_ne f hqc]
      exact hall q hq
  by_cases hone : (s.task s.curr).ts.timeSlice = 1
  · obtain ⟨i, hi⟩ := h.expired_level
    obtain ⟨q, hq, -⟩ := h.top_after_expire hi
    rw [timerTick_expired h hone hi hq]
    refine hmodify expired ?_
    show (getNewPrio (s.task s.curr).prio .expire).1 = 139
    rw [hall s.curr h.curr]
    rfl
  · rw [timerTick_running h (by omega) hset.1]
    exact hmodify spent (hall s.curr h.curr)

/-! ### Taking turns at the bottom -/

/-- An order in which the tasks can wait. -/
def Order (tasks : Finset TaskId) (l : List TaskId) : Prop :=
  l.Nodup ∧ ∀ q, q ∈ l ↔ q ∈ tasks

/-- Everyone waits at the bottom in the order `l`, and the first of them runs. -/
def bottom (tasks : Finset TaskId) (s : Sys X) (l : List TaskId) (slices : TaskId → Nat) : Sys X :=
  { s with
    task := fun q =>
      if q ∈ tasks then { s.task q with prio := 139, ts := { timeSlice := slices q } }
      else s.task q
    tsQueue := fun i => if i = 0 then l else []
    curr := l.headD s.curr
    needResched := false }

theorem bottom_task {q : TaskId} (hq : q ∈ tasks) (l : List TaskId) (slices : TaskId → Nat) :
    (bottom tasks s l slices).task q
      = { s.task q with prio := 139, ts := { timeSlice := slices q } } :=
  if_pos hq

theorem bottom_congr {slices slices' : TaskId → Nat} (h : ∀ q ∈ tasks, slices q = slices' q)
    (l : List TaskId) : bottom tasks s l slices = bottom tasks s l slices' := by
  unfold bottom
  congr 1
  funext q
  by_cases hq : q ∈ tasks
  · rw [if_pos hq, if_pos hq, h q hq]
  · rw [if_neg hq, if_neg hq]

theorem Order.rotate {c : TaskId} {l : List TaskId} (h : Order tasks (c :: l)) :
    Order tasks (l ++ [c]) := by
  have hperm : (l ++ [c]).Perm (c :: l) := List.perm_append_singleton c l
  refine ⟨hperm.nodup_iff.mpr h.1, fun q => ?_⟩
  rw [hperm.mem_iff]
  exact h.2 q

theorem Order.length {l : List TaskId} (h : Order tasks l) : l.length = tasks.card := by
  have hset : l.toFinset = tasks := by
    ext q
    rw [List.mem_toFinset]
    exact h.2 q
  rw [← hset, List.toFinset_card_of_nodup h.1]

/-- The list a task at the bottom is on. -/
theorem tsLevel?_bottom : tsLevel? (139 - 139) = some 0 := rfl

/-- Tasks at the bottom go on spinning, whatever their order. -/
theorem Spinning.bottom (h : Spinning tasks s) {c : TaskId} {l : List TaskId}
    (hl : Order tasks (c :: l)) {slices : TaskId → Nat}
    (hslices : ∀ q ∈ tasks, 1 ≤ slices q ∧ slices q ≤ 16) :
    Spinning tasks (bottom tasks s (c :: l) slices) := by
  refine ⟨?_, ?_, ?_, ?_, ?_, ?_, ?_, ?_, ?_, h.noRt⟩
  · intro q
    unfold Levels.count
    rw [Finset.sum_eq_single (0 : Fin 40)]
    · show (c :: l).count q = _
      by_cases hq : q ∈ tasks
      · rw [if_pos hq]
        exact List.count_eq_one_of_mem hl.1 ((hl.2 q).mpr hq)
      · rw [if_neg hq]
        exact List.count_eq_zero.mpr fun hmem => hq ((hl.2 q).mp hmem)
    · intro i _ hi
      show (if i = 0 then c :: l else []).count q = 0
      rw [if_neg hi]
      rfl
    · intro hne
      exact absurd (Finset.mem_univ _) hne
  · intro q i hmem
    have hmem' : q ∈ if i = 0 then c :: l else [] := hmem
    by_cases hi : i = 0
    · rw [if_pos hi] at hmem'
      rw [bottom_task ((hl.2 q).mp hmem'), hi]
      exact tsLevel?_bottom
    · rw [if_neg hi] at hmem'
      simp at hmem'
  · intro q hq
    rw [bottom_task hq]
    exact h.cls q hq
  · intro q hq
    rw [bottom_task hq]
    exact h.policy q hq
  · intro q hq
    rw [bottom_task hq]
    exact h.state q hq
  · intro q hq
    rw [bottom_task hq]
    show (100 : Int) ≤ 139 ∧ (139 : Int) ≤ 139
    decide
  · intro q hq
    rw [bottom_task hq]
    exact hslices q hq
  · exact (hl.2 c).mp (List.mem_cons_self ..)
  · intro q hon
    by_cases hq : q ∈ tasks
    · rw [bottom_task hq] at hon ⊢
      exact h.noHigher q hon
    · have hsame : (Sched.bottom tasks s (c :: l) slices).task q = s.task q := if_neg hq
      rw [hsame] at hon ⊢
      exact h.noHigher q hon

/-- Tasks that have got to the bottom wait there in the order of the lowest list. -/
theorem Spinning.eq_bottom (h : Spinning tasks s) (hset : Settled s) (hall : AllBottom tasks s) :
    Order tasks (s.tsQueue 0) ∧
      s = Sched.bottom tasks s (s.tsQueue 0) (fun q => (s.task q).ts.timeSlice) := by
  have hzero : ∀ q i, q ∈ s.tsQueue i → i = 0 := by
    intro q i hmem
    have hlevel := h.level q i hmem
    rw [hall q (h.mem hmem), tsLevel?_bottom] at hlevel
    exact (Option.some.inj hlevel).symm
  have hqueue : s.tsQueue = fun i => if i = 0 then s.tsQueue 0 else [] := by
    funext i
    by_cases hi : i = 0
    · rw [if_pos hi, hi]
    · rw [if_neg hi]
      exact List.eq_nil_iff_forall_not_mem.mpr fun q hmem => hi (hzero q i hmem)
  have hcurr : s.curr = (s.tsQueue 0).headD s.curr := by
    obtain ⟨i, hhead, -⟩ := Levels.top?_eq_some hset.2
    rw [hzero _ i (List.mem_of_mem_head? hhead)] at hhead
    rw [List.headD_eq_head?_getD, hhead, Option.getD_some]
  have htask : s.task = fun q =>
      if q ∈ tasks then { s.task q with prio := 139, ts := { timeSlice := (s.task q).ts.timeSlice } }
      else s.task q := by
    funext q
    by_cases hq : q ∈ tasks
    · rw [if_pos hq, ← hall q hq]
    · rw [if_neg hq]
  refine ⟨⟨?_, fun q => ⟨fun hmem => h.mem hmem, fun hq => ?_⟩⟩, ?_⟩
  · refine List.nodup_iff_count_le_one.mpr fun q => ?_
    have hle : (s.tsQueue 0).count q ≤ Levels.count s.tsQueue q :=
      Finset.single_le_sum (f := fun i => (s.tsQueue i).count q) (fun _ _ => Nat.zero_le _)
        (Finset.mem_univ 0)
    rw [h.linked q] at hle
    split at hle <;> omega
  · obtain ⟨i, hi⟩ := h.on_list hq
    rw [hzero q i hi] at hi
    exact hi
  · unfold Sched.bottom
    rw [← htask, ← hqueue, ← hcurr, ← hset.1]

/-- Giving one task at the bottom a slice. -/
theorem bottom_modify {c : TaskId} (hc : c ∈ tasks) {f : TaskStruct → TaskStruct}
    (slices : TaskId → Nat) {n : Nat} (l l' : List TaskId)
    (hf : f { s.task c with prio := 139, ts := { timeSlice := slices c } }
      = { s.task c with prio := 139, ts := { timeSlice := n } }) :
    ((bottom tasks s l slices).modify c f).task
      = (bottom tasks s l' (Function.update slices c n)).task := by
  funext q
  by_cases hqc : q = c
  · rw [hqc, Sys.modify_task_self, bottom_task hc, bottom_task hc, Function.update_self, hf]
  · rw [Sys.modify_task_of_ne _ f hqc]
    unfold bottom
    simp only [Function.update_of_ne hqc]

/-- The first task goes to the end of the lowest list. -/
theorem bottom_moveTail {c : TaskId} {l : List TaskId} (hl : Order tasks (c :: l))
    (slices slices' : TaskId → Nat) :
    Levels.moveTail (bottom tasks s (c :: l) slices).tsQueue 0 c
      = (bottom tasks s (l ++ [c]) slices').tsQueue := by
  have hdel : l.filter (· ≠ c) = l := by
    refine List.filter_eq_self.mpr fun q hq => ?_
    have hne : q ≠ c := by
      rintro rfl
      exact (List.nodup_cons.mp hl.1).1 hq
    simpa using hne
  funext i
  unfold Levels.moveTail Levels.addTail Levels.del
  by_cases hi : i = 0
  · subst hi
    rw [Function.update_self]
    show (c :: l).filter (· ≠ c) ++ [c] = l ++ [c]
    rw [List.filter_cons_of_neg (by simp), hdel]
  · rw [Function.update_of_ne hi]
    show (if i = 0 then c :: l else []).filter (· ≠ c) = if i = 0 then l ++ [c] else []
    rw [if_neg hi, if_neg hi, List.filter_nil]

variable (tasks s) in
theorem bottom_top (l : List TaskId) (c : TaskId) (slices : TaskId → Nat) :
    Levels.top? (bottom tasks s (l ++ [c]) slices).tsQueue = some ((l ++ [c]).headD s.curr) := by
  refine Levels.top?_of_head (i := 0) ?_ ?_
  · show (l ++ [c]).head? = _
    cases l <;> rfl
  · intro j hj
    exact if_neg hj.ne'

/-- A tick at the bottom that leaves something of the slice. -/
theorem timerTick_bottom_running (h : Spinning tasks s) {c : TaskId} {l : List TaskId}
    (hl : Order tasks (c :: l)) {slices : TaskId → Nat}
    (hslices : ∀ q ∈ tasks, 1 ≤ slices q ∧ slices q ≤ 16) (htwo : 2 ≤ slices c) :
    timerTick other (bottom tasks s (c :: l) slices)
      = bottom tasks s (c :: l) (Function.update slices c (slices c - 1)) := by
  have hc : c ∈ tasks := (hl.2 c).mp (List.mem_cons_self ..)
  have hslice : ((bottom tasks s (c :: l) slices).task c).ts.timeSlice = slices c := by
    rw [bottom_task hc]
  have htask := bottom_modify (s := s) (f := spent) hc slices (c :: l) (c :: l) rfl
  rw [timerTick_running (h.bottom hl hslices) (show 2 ≤ _ from hslice ▸ htwo) rfl]
  calc (bottom tasks s (c :: l) slices).modify c spent
      = { bottom tasks s (c :: l) slices with
          task := ((bottom tasks s (c :: l) slices).modify c spent).task } := rfl
    _ = bottom tasks s (c :: l) (Function.update slices c (slices c - 1)) := by
        rw [htask]
        rfl

/-- A tick at the bottom that uses the slice up. -/
theorem timerTick_bottom_expired (h : Spinning tasks s) {c : TaskId} {l : List TaskId}
    (hl : Order tasks (c :: l)) {slices : TaskId → Nat}
    (hslices : ∀ q ∈ tasks, 1 ≤ slices q ∧ slices q ≤ 16) (hone : slices c = 1) :
    timerTick other (bottom tasks s (c :: l) slices)
      = bottom tasks s (l ++ [c]) (Function.update slices c 16) := by
  have hc : c ∈ tasks := (hl.2 c).mp (List.mem_cons_self ..)
  have hslice : ((bottom tasks s (c :: l) slices).task c).ts.timeSlice = 1 := by
    rw [bottom_task hc]
    exact hone
  have hlevel : tsLevel? (139 - (expired ((bottom tasks s (c :: l) slices).task c)).prio)
      = some 0 := by
    rw [bottom_task hc]
    exact tsLevel?_bottom
  have htask := bottom_modify (s := s) (f := expired) hc slices (c :: l) (l ++ [c]) rfl
  have hqueue := bottom_moveTail (s := s) hl slices (Function.update slices c 16)
  have htop := bottom_top s tasks l c (Function.update slices c 16)
  rw [← hqueue] at htop
  rw [timerTick_expired (h.bottom hl hslices) hslice hlevel htop]
  calc ({ (bottom tasks s (c :: l) slices).modify c expired with
          tsQueue := Levels.moveTail (bottom tasks s (c :: l) slices).tsQueue 0 c
          needResched := false
          curr := (l ++ [c]).headD s.curr } : Sys X)
      = { bottom tasks s (l ++ [c]) slices with
          task := ((bottom tasks s (c :: l) slices).modify c expired).task
          tsQueue := Levels.moveTail (bottom tasks s (c :: l) slices).tsQueue 0 c } := rfl
    _ = bottom tasks s (l ++ [c]) (Function.update slices c 16) := by
        rw [hqueue, htask]
        rfl

/-- Spending and renewing keeps the slices in range. -/
theorem slices_update {slices : TaskId → Nat}
    (hslices : ∀ q ∈ tasks, 1 ≤ slices q ∧ slices q ≤ 16) (c : TaskId) {n : Nat}
    (hn : 1 ≤ n ∧ n ≤ 16) :
    ∀ q ∈ tasks, 1 ≤ Function.update slices c n q ∧ Function.update slices c n q ≤ 16 := by
  intro q hq
  by_cases hqc : q = c
  · rw [hqc, Function.update_self]
    exact hn
  · rw [Function.update_of_ne hqc]
    exact hslices q hq

/-- The first part of a turn. -/
theorem bottom_ticks (h : Spinning tasks s) {c : TaskId} {l : List TaskId}
    (hl : Order tasks (c :: l)) {slices : TaskId → Nat}
    (hslices : ∀ q ∈ tasks, 1 ≤ slices q ∧ slices q ≤ 16) :
    ∀ j, j < slices c → (timerTick other)^[j] (bottom tasks s (c :: l) slices)
      = bottom tasks s (c :: l) (Function.update slices c (slices c - j)) := by
  have hc := hslices c ((hl.2 c).mp (List.mem_cons_self ..))
  intro j
  induction j with
  | zero =>
      intro _
      rw [Nat.sub_zero, Function.update_eq_self]
      rfl
  | succ j ih =>
      intro hj
      have hleft : Function.update slices c (slices c - j) c = slices c - j :=
        Function.update_self ..
      rw [Function.iterate_succ_apply', ih (by omega),
        timerTick_bottom_running other h hl (slices_update hslices c (by omega)) (by omega),
        Function.update_idem, hleft, Nat.sub_sub]

/-- **A turn.**  The first task runs until its slice is used up and goes to the end with a
slice of 16. -/
theorem bottom_turn (h : Spinning tasks s) {c : TaskId} {l : List TaskId}
    (hl : Order tasks (c :: l)) (slices : TaskId → Nat)
    (hslices : ∀ q ∈ tasks, 1 ≤ slices q ∧ slices q ≤ 16) :
    (timerTick other)^[slices c] (bottom tasks s (c :: l) slices)
      = bottom tasks s (l ++ [c]) (Function.update slices c 16) := by
  have hc := hslices c ((hl.2 c).mp (List.mem_cons_self ..))
  obtain ⟨n, hn⟩ : ∃ n, slices c = n + 1 := ⟨slices c - 1, by omega⟩
  have hlast : Function.update slices c (slices c - n) c = 1 := by
    rw [Function.update_self]
    omega
  rw [hn, Function.iterate_succ_apply', bottom_ticks other h hl hslices n (by omega),
    timerTick_bottom_expired other h hl (slices_update hslices c (by omega)) hlast,
    Function.update_idem]

/-- Once everyone has had a turn, all slices are 16.  The tasks of `l₂` have had theirs. -/
theorem bottom_refresh (h : Spinning tasks s) : ∀ (l₁ l₂ : List TaskId) (slices : TaskId → Nat),
    Order tasks (l₁ ++ l₂) → (∀ q ∈ tasks, 1 ≤ slices q ∧ slices q ≤ 16) →
    (∀ q ∈ l₂, slices q = 16) →
    ∃ k, (timerTick other)^[k] (bottom tasks s (l₁ ++ l₂) slices)
      = bottom tasks s (l₂ ++ l₁) (fun _ => 16) := by
  intro l₁
  induction l₁ with
  | nil =>
      intro l₂ slices hl _ hdone
      refine ⟨0, ?_⟩
      rw [List.nil_append, List.append_nil]
      exact bottom_congr (fun q hq => hdone q ((hl.2 q).mpr hq)) l₂
  | cons c l₁ ih =>
      intro l₂ slices hl hslices hdone
      rw [List.cons_append] at hl
      have hnext : Order tasks (l₁ ++ (l₂ ++ [c])) := by
        rw [← List.append_assoc]
        exact hl.rotate
      obtain ⟨k, hk⟩ := ih (l₂ ++ [c]) (Function.update slices c 16) hnext
        (slices_update hslices c (by omega)) (by
          intro q hq
          by_cases hqc : q = c
          · rw [hqc, Function.update_self]
          · rw [Function.update_of_ne hqc]
            rcases List.mem_append.mp hq with h2 | h1
            · exact hdone q h2
            · exact absurd (List.mem_singleton.mp h1) hqc)
      refine ⟨k + slices c, ?_⟩
      rw [Function.iterate_add_apply, List.cons_append, bottom_turn other h hl slices hslices,
        List.append_assoc, hk, List.append_assoc, List.singleton_append]

/-- A turn of 16 ticks leaves all slices at 16. -/
theorem steady_turn (h : Spinning tasks s) (c : TaskId) (l : List TaskId)
    (hl : Order tasks (c :: l)) :
    (timerTick other)^[16] (bottom tasks s (c :: l) (fun _ => 16))
      = bottom tasks s (l ++ [c]) (fun _ => 16) := by
  have hturn := bottom_turn other h hl (fun _ => 16) (fun _ _ => by omega)
  rw [Function.update_eq_self_iff.mpr rfl] at hturn
  exact hturn

theorem steady_turns (h : Spinning tasks s) {l : List TaskId} (hl : Order tasks l) (a : Nat) :
    (timerTick other)^[16 * a] (bottom tasks s l (fun _ => 16))
      = bottom tasks s (l.rotate a) (fun _ => 16) := by
  have hne : l ≠ [] := List.ne_nil_of_mem ((hl.2 s.curr).mpr h.curr)
  exact Rounds.iterate_turns (fun l => bottom tasks s l fun _ => 16) (fun _ _ => Order.rotate)
    (steady_turn other h) a l hne hl

/-- Who runs in the turn `a`, at any of its ticks. -/
theorem steady_curr (h : Spinning tasks s) {l : List TaskId} (hl : Order tasks l) (a : Nat)
    {b : Nat} (hb : b < 16) :
    l[a % l.length]?
      = some ((timerTick other)^[16 * a + b] (bottom tasks s l (fun _ => 16))).curr := by
  have hmem := (hl.2 s.curr).mpr h.curr
  have hpos : 0 < l.length := List.length_pos_of_mem hmem
  have hrotate : Order tasks (l.rotate a) :=
    ⟨List.nodup_rotate.mpr hl.1, fun q => by rw [List.mem_rotate]; exact hl.2 q⟩
  rw [← List.head?_rotate (Nat.mod_lt _ hpos), List.rotate_mod, Nat.add_comm (16 * a),
    Function.iterate_add_apply, steady_turns other h hl]
  cases hcons : l.rotate a with
  | nil =>
      rw [List.rotate_eq_nil_iff] at hcons
      rw [hcons] at hpos
      exact absurd hpos (lt_irrefl 0)
  | cons c m =>
      rw [hcons] at hrotate
      rw [bottom_ticks other h hrotate (fun _ _ => by omega) b hb]
      rfl

/-- **Tasks that never sleep end up at the bottom and take turns of 16 ticks there.**  The
whole state, and so the scheduling state, comes back after everyone has had one turn. -/
theorem cpu_bound_round_robin (h : Spinning tasks s) :
    (∃ N, ∀ k, N ≤ k → ∀ q ∈ tasks,
      (((timerTick other)^[k] s).task q).prio = 139 ∧ q ∈ ((timerTick other)^[k] s).tsQueue 0) ∧
    ∃ M order, Order tasks order ∧
      (∀ a b, b < 16 →
        order[a % order.length]? = some ((timerTick other)^[M + (16 * a + b)] s).curr) ∧
      ∀ k, M ≤ k → (timerTick other)^[k + 16 * tasks.card] s = (timerTick other)^[k] s := by
  obtain ⟨N, ⟨hspin, hset⟩, hall⟩ := sinks other h
  constructor
  · refine ⟨N, fun k hk q hq => ?_⟩
    obtain ⟨d, rfl⟩ := Nat.exists_eq_add_of_le hk
    have hinv := Rounds.invariant (f := timerTick other)
      (P := fun s => Spinning tasks s ∧ Settled s ∧ AllBottom tasks s)
      (fun s ⟨hs, hset, hall⟩ =>
        have hnext := timerTick_settled other hs hset
        ⟨hnext.1, hnext.2, timerTick_allBottom other hs hset hall⟩) d _ ⟨hspin, hset, hall⟩
    rw [Nat.add_comm, Function.iterate_add_apply]
    obtain ⟨hspin', hset', hall'⟩ := hinv
    exact ⟨hall' q hq, (((hspin'.eq_bottom hset' hall').1).2 q).mpr hq⟩
  · generalize hs' : (timerTick other)^[N] s = s' at hspin hset hall
    obtain ⟨horder, heq⟩ := hspin.eq_bottom hset hall
    obtain ⟨k, hk⟩ := bottom_refresh other hspin (s'.tsQueue 0) [] _
      (by rw [List.append_nil]; exact horder) hspin.slice (by simp)
    rw [List.append_nil, List.nil_append, ← heq] at hk
    have hM : (timerTick other)^[k + N] s = bottom tasks s' (s'.tsQueue 0) (fun _ => 16) := by
      rw [Function.iterate_add_apply, hs', hk]
    refine ⟨k + N, s'.tsQueue 0, horder, fun a b hb => ?_, ?_⟩
    · rw [Nat.add_comm (k + N), Function.iterate_add_apply, hM]
      exact steady_curr other hspin horder a hb
    · refine Rounds.periodic_from ?_
      rw [hM, ← horder.length, steady_turns other hspin horder, List.rotate_length]

/-- Task 1 has used most of its slice, and task 2, although it has less priority, runs. -/
def twoSpinners : Sys (List TaskId) :=
  { bootSys with
    task := fun q =>
      if q = 1 then { tsTask with onRq := true, prio := 109, ts := { timeSlice := 3 } }
      else if q = 2 then { tsTask with onRq := true }
      else { normalTask .dead false with schedClass := .idle }
    curr := 2
    nrRunning := 0
    hNrRunning := 0
    tsQueue := Levels.addTail (Levels.addTail Levels.empty 30 1) 19 2
    priv := [] }

theorem twoSpinners_spinning : Spinning {1, 2} twoSpinners := by
  have hboth : ∀ q ∈ ({1, 2} : Finset TaskId), q = 1 ∨ q = 2 := by
    intro q hq
    rcases Finset.mem_insert.mp hq with h1 | h2
    · exact Or.inl h1
    · exact Or.inr (Finset.mem_singleton.mp h2)
  have hcls : ∀ q, (twoSpinners.task q).schedClass = .ts ∨
      (twoSpinners.task q).schedClass = .idle := by
    intro q
    unfold twoSpinners
    dsimp only
    split_ifs
    · exact Or.inl rfl
    · exact Or.inl rfl
    · exact Or.inr rfl
  refine ⟨?_, ?_, ?_, ?_, ?_, ?_, ?_, by decide, ?_, rfl⟩
  · intro q
    show Levels.count (Levels.addTail (Levels.addTail Levels.empty 30 1) 19 2) q = _
    rw [Levels.count_addTail, Levels.count_addTail, Levels.count_empty]
    by_cases h1 : q = 1
    · subst h1
      rfl
    · by_cases h2 : q = 2
      · subst h2
        rfl
      · simp [h1, h2]
  · intro q i hmem
    rcases Levels.mem_addTail.mp hmem with hmem | ⟨rfl, rfl⟩
    · rcases Levels.mem_addTail.mp hmem with hmem | ⟨rfl, rfl⟩
      · simp [Levels.empty] at hmem
      · rfl
    · rfl
  all_goals intro q hq
  · rcases hboth q hq with rfl | rfl <;> rfl
  · rcases hboth q hq with rfl | rfl <;> rfl
  · rcases hboth q hq with rfl | rfl <;> rfl
  · rcases hboth q hq with rfl | rfl <;> decide
  · rcases hboth q hq with rfl | rfl <;> decide
  · rcases hcls q with h | h <;> rw [h] <;> decide

theorem cpu_bound_twoSpinners : Spinning {1, 2} twoSpinners ∧
    ∃ M, ∀ k, M ≤ k →
      (timerTick queueFair)^[k + 32] twoSpinners = (timerTick queueFair)^[k] twoSpinners := by
  refine ⟨twoSpinners_spinning, ?_⟩
  obtain ⟨-, M, order, -, -, hperiod⟩ := cpu_bound_round_robin queueFair twoSpinners_spinning
  exact ⟨M, hperiod⟩

end Sched
