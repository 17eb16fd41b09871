/-
Does the shortcut of `pick_next_task` agree with the walk over the classes?

When the previous task is fair or idle and `nr_running` equals the fair class's own
counter, `pick_next_task` concludes that there are only fair tasks and asks the fair
class directly.  Time-sharing tasks are not in `nr_running`, so the conclusion is
wrong when there are some.  They do not hide a real-time task that may run, which is
counted, and they are only passed over when the shortcut is taken.
-/
import KernelProgramming.Proofs.Sched.Accounting

namespace Sched

variable {X : Type} {other : OtherClasses X} {s t : Sys X} {p : TaskId}

/-- `pick_next_task` returns what the plain walk over the classes returns.  In particular, if
a time-sharing task is queued and no stop, deadline or real-time task is, it returns neither
a fair task nor the idle task. -/
structure AgreesWithWalk (other : OtherClasses X) (s : Sys X) (prev : TaskId) : Prop where
  same : (pickNextTask other s prev).map Prod.fst
    = (classWalk other s prev SchedClass.forEachClass).map Prod.fst
  ts : (∃ q, (s.task q).onRq = true ∧ (s.task q).schedClass = .ts) →
    (∀ q, (s.task q).onRq = true → (s.task q).schedClass ≠ .stop ∧ (s.task q).schedClass ≠ .dl ∧
      (s.task q).schedClass ≠ .rt) →
    ∀ r, pickNextTask other s prev = some r →
      (s.task r.1).schedClass ≠ .fair ∧ (s.task r.1).schedClass ≠ .idle

/-- The shortcut is taken past a time-sharing task. -/
def PassedOver (s : Sys X) (prev : TaskId) : Prop :=
  ((s.task prev).schedClass = .fair ∨ (s.task prev).schedClass = .idle) ∧
    (∃ q, (s.task q).onRq = true ∧ (s.task q).schedClass = .ts) ∧
    (s.rtThrottled = true ∨ ∀ q, ¬((s.task q).onRq = true ∧ (s.task q).schedClass = .rt))

/-! ### The walk -/

/-- A class without queued tasks answers `NULL`. -/
theorem pickClass_unqueued (prev : TaskId) {cls : SchedClass} (hcls : cls = .stop ∨ cls = .dl)
    (hno : ∀ q, (s.task q).onRq = true → (s.task q).schedClass ≠ cls) :
    pickClass other s prev cls = (none, s) := by
  have hnone : other.pickNextTask cls s prev = none := by
    cases hpick : other.pickNextTask cls s prev with
    | none => rfl
    | some r =>
        obtain ⟨hown, hon⟩ := other.pick_own hpick
        exact absurd hown (hno r.1 hon)
  unfold pickClass
  rcases hcls with rfl | rfl <;> simp [hnone]

/-- Accounting for the running task does not bring back real-time tasks that may not run. -/
theorem updateCurrRt_rtQueued (hq : s.rtQueued = false) :
    (updateCurrRt other s).rtQueued = false := by
  rcases updateCurrRt_cases other s with ⟨mark, heq⟩ | heq | heq
  · rw [heq]
    exact hq
  · rw [heq]
    exact hq
  · rw [heq]
    unfold dequeueTopRtRq
    simp [hq, Sys.reschedCurr]

variable (other) in
/-- With no real-time task that may run the class has at most accounted for the running task. -/
theorem pickNextTaskRt_none (hq : s.rtQueued = false) (prev : TaskId) :
    pickNextTaskRt other s prev
      = (none, if (s.task prev).schedClass = .rt then updateCurrRt other s else s) := by
  have hq' : (if (s.task prev).schedClass = .rt then updateCurrRt other s else s).rtQueued
      = false := by
    split
    · exact updateCurrRt_rtQueued hq
    · exact hq
  unfold pickNextTaskRt
  simp [hq']

/-- With no stop or deadline task queued, the walk gets to the real-time class. -/
theorem classWalk_to_rt
    (hno : ∀ q, (s.task q).onRq = true → (s.task q).schedClass ≠ .stop ∧ (s.task q).schedClass ≠ .dl)
    {prev : TaskId} : classWalk other s prev SchedClass.forEachClass
      = classWalk other s prev [.rt, .ts, .fair, .idle] := by
  unfold SchedClass.forEachClass
  rw [classWalk, pickClass_unqueued prev (Or.inl rfl) fun q hon => (hno q hon).1]
  show classWalk other s prev [.dl, .rt, .ts, .fair, .idle] = _
  rw [classWalk, pickClass_unqueued prev (Or.inr rfl) fun q hon => (hno q hon).2]

variable (other) in
/-- With nobody above it that may run the walk starts at the time-sharing class. -/
theorem classWalk_from_ts
    (hno : ∀ q, (s.task q).onRq = true → (s.task q).schedClass ≠ .stop ∧ (s.task q).schedClass ≠ .dl)
    (hq : s.rtQueued = false) (prev : TaskId) :
    ∃ s', Timed s s' ∧ (((s.task prev).schedClass ≠ .rt → s' = s) ∧
      classWalk other s prev SchedClass.forEachClass
        = classWalk other s' prev [.ts, .fair, .idle]) := by
  have hrt : pickClass other s prev .rt
      = (none, if (s.task prev).schedClass = .rt then updateCurrRt other s else s) := by
    show putPrevIf other (pickNextTaskRt other s prev).2 prev (pickNextTaskRt other s prev).1 = _
    rw [pickNextTaskRt_none other hq prev]
    rfl
  refine ⟨if (s.task prev).schedClass = .rt then updateCurrRt other s else s, ?_, ?_, ?_⟩
  · split
    · exact updateCurrRt_timed other s
    · exact Timed.refl s
  · intro hne
    exact if_neg hne
  · rw [classWalk_to_rt hno, classWalk, hrt]

/-- No stop or deadline task is ever enqueued here. -/
theorem Counts.noHigher (h : Counts s) {q : TaskId} (hon : (s.task q).onRq = true) :
    (s.task q).schedClass ≠ .stop ∧ (s.task q).schedClass ≠ .dl := by
  by_cases hidle : q = s.idle
  · subst hidle
    rw [h.idle]
    simp
  · rcases h.classes q hon hidle with hc | hc | hc <;> rw [hc] <;> simp

/-- A queued time-sharing task is found. -/
theorem pickNextTaskTs_some (h : Counts s)
    (hts : ∃ q, (s.task q).onRq = true ∧ (s.task q).schedClass = .ts) :
    ∃ q, pickNextTaskTs s = some q ∧ (s.task q).schedClass = .ts := by
  obtain ⟨q, hq⟩ := hts
  have hcount := h.ts q
  rw [if_pos hq] at hcount
  obtain ⟨i, hmem⟩ := Levels.count_ne_zero.mp (by omega : Levels.count s.tsQueue q ≠ 0)
  cases hpick : pickNextTaskTs s with
  | none =>
      rw [Levels.top?_eq_none.mp hpick i] at hmem
      simp at hmem
  | some r =>
      refine ⟨r, rfl, ?_⟩
      obtain ⟨j, hr⟩ := pickNextTaskTs_mem hpick
      by_contra hne
      have hzero := h.ts r
      rw [if_neg (by simp [hne])] at hzero
      exact Levels.count_eq_zero.mp hzero j hr

theorem pickNextTaskTs_none (h : Counts s)
    (hts : ¬∃ q, (s.task q).onRq = true ∧ (s.task q).schedClass = .ts) :
    pickNextTaskTs s = none := by
  cases hpick : pickNextTaskTs s with
  | none => rfl
  | some r =>
      obtain ⟨j, hr⟩ := pickNextTaskTs_mem hpick
      have hzero := h.ts r
      rw [if_neg fun hq => hts ⟨r, hq⟩] at hzero
      exact absurd hr (Levels.count_eq_zero.mp hzero j)

/-! ### The shortcut -/

/-- The counter is the fair class's own exactly when no real-time task may run. -/
theorem Counts.shortcut_iff (h : Counts s) : s.nrRunning = s.hNrRunning ↔ s.rtQueued = false := by
  have htotal := h.counted.total
  cases hq : s.rtQueued with
  | true =>
      have hne := (h.counted.queued.mp hq).1
      rw [hq, if_pos rfl] at htotal
      refine iff_of_false (by omega) (by simp)
  | false =>
      rw [hq] at htotal
      exact iff_of_true htotal rfl

/-- That is, when none is queued or the CPU is throttled. -/
theorem Counts.rtQueued_false_iff (h : Counts s) : s.rtQueued = false ↔
    s.rtThrottled = true ∨ ∀ q, ¬((s.task q).onRq = true ∧ (s.task q).schedClass = .rt) := by
  have hempty : s.rtNrRunning = 0 ↔
      ∀ q, ¬((s.task q).onRq = true ∧ (s.task q).schedClass = .rt) := by
    rw [h.rt, Set.ncard_eq_zero (h.finite_of .rt), Set.eq_empty_iff_forall_notMem]
    exact Iff.rfl
  rw [← Bool.not_eq_true, h.counted.queued, hempty.symm]
  cases s.rtThrottled <;> simp

/-- The shortcut asks the fair class, and then the idle class. -/
theorem shortcut_eq {prev : TaskId}
    (hprev : (s.task prev).schedClass = .idle ∨ (s.task prev).schedClass = .fair)
    (heq : s.nrRunning = s.hNrRunning) :
    pickNextTask other s prev = classWalk other s prev [.fair, .idle] := by
  unfold pickNextTask
  rw [if_pos ⟨hprev, heq⟩]

/-- It never returns a time-sharing task. -/
theorem shortcut_class (h : Counts s) {prev : TaskId} {r : TaskId × Sys X}
    (hr : classWalk other s prev [.fair, .idle] = some r) :
    (s.task r.1).schedClass = .fair ∨ (s.task r.1).schedClass = .idle := by
  cases hfair : other.pickNextTask .fair s prev with
  | some q =>
      simp only [classWalk, pickClass, hfair] at hr
      cases hr
      exact Or.inl (other.pick_own hfair).1
  | none =>
      simp only [classWalk, pickClass, hfair, putPrevIf] at hr
      cases hr
      exact Or.inr h.idle

theorem agreesWithWalk_of_shortcut (h : Counts s) {prev : TaskId}
    (hprev : (s.task prev).schedClass = .idle ∨ (s.task prev).schedClass = .fair)
    (heq : s.nrRunning = s.hNrRunning) :
    AgreesWithWalk other s prev ↔
      ¬∃ q, (s.task q).onRq = true ∧ (s.task q).schedClass = .ts := by
  obtain ⟨s', -, hsame, hwalk⟩ :=
    classWalk_from_ts other (fun _ => h.noHigher) (h.shortcut_iff.mp heq) prev
  have hne : (s.task prev).schedClass ≠ .rt := by rcases hprev with hc | hc <;> simp [hc]
  rw [hsame hne] at hwalk
  constructor
  · intro hagree hts
    obtain ⟨q, hq, hqcls⟩ := pickNextTaskTs_some h hts
    -- The walk returns a task of the class, the shortcut one of another.
    have hsame := hagree.same
    rw [hwalk, classWalk, shortcut_eq hprev heq] at hsame
    simp only [pickClass, putPrevIf, hq, Option.map_some] at hsame
    obtain ⟨r, hr, hreq⟩ := Option.map_eq_some_iff.mp hsame
    have hcls := shortcut_class h hr
    rw [hreq, hqcls] at hcls
    simp at hcls
  · intro hts
    refine ⟨?_, fun hex => absurd hex hts⟩
    have hnone : pickClass other s prev .ts = (none, s) := by
      unfold pickClass putPrevIf
      simp [pickNextTaskTs_none h hts]
    have htail : classWalk other s prev [.ts, .fair, .idle]
        = classWalk other s prev [.fair, .idle] := by
      rw [classWalk, hnone]
    rw [hwalk, shortcut_eq hprev heq, htail]

theorem agreesWithWalk_of_walk (h : Counts s) {prev : TaskId}
    (hwalk : pickNextTask other s prev = classWalk other s prev SchedClass.forEachClass) :
    AgreesWithWalk other s prev := by
  refine ⟨by rw [hwalk], ?_⟩
  intro hts habove r hr
  have hq := h.rtQueued_false_iff.mpr (Or.inr fun q hq => (habove q hq.1).2.2 hq.2)
  obtain ⟨s', htimed, -, hfrom⟩ := classWalk_from_ts other (fun _ => h.noHigher) hq prev
  obtain ⟨q, hq, hqcls⟩ := pickNextTaskTs_some h hts
  have hq' : pickNextTaskTs s' = some q := by
    unfold pickNextTaskTs at hq ⊢
    rw [htimed.tsQueue]
    exact hq
  rw [hwalk, hfrom, classWalk] at hr
  simp only [pickClass, putPrevIf, hq'] at hr
  cases hr
  rw [hqcls]
  simp

/--
**The shortcut.**  In every state that calls from an empty runqueue lead to, and for every
previous task, `pick_next_task` agrees with the walk over the classes exactly when it does
not take its shortcut past a time-sharing task.
-/
theorem agreesWithWalk_iff (hother : FairCounts other) (hempty : EmptyRq s) {calls : List Call}
    (hrun : Runs.run (callStep other) s calls = some t) (prev : TaskId) :
    AgreesWithWalk other t prev ↔ ¬PassedOver t prev := by
  have h := callRun_counts hother hempty hrun
  unfold PassedOver
  rw [← h.rtQueued_false_iff, ← h.shortcut_iff]
  by_cases hshort : ((t.task prev).schedClass = .fair ∨ (t.task prev).schedClass = .idle) ∧
      t.nrRunning = t.hNrRunning
  · obtain ⟨hprev, heq⟩ := hshort
    rw [agreesWithWalk_of_shortcut h (Or.comm.mp hprev) heq]
    exact ⟨fun hno hpass => hno hpass.2.1, fun hnot hts => hnot ⟨hprev, hts, heq⟩⟩
  · have hwalk : pickNextTask other t prev
        = classWalk other t prev SchedClass.forEachClass := by
      unfold pickNextTask
      rw [if_neg fun hc => hshort ⟨Or.comm.mp hc.1, hc.2⟩]
    refine iff_of_true (agreesWithWalk_of_walk h hwalk) ?_
    intro hpass
    exact hshort ⟨hpass.1, hpass.2.2⟩

/-- A time-sharing task is queued, and the previous task is one as well. -/
theorem agreesWithWalk_after_ts :
    ∃ t, Runs.run (callStep queueFair) emptySys [.rewrite 1 tsTask, .enqueueTask 1 {}] = some t ∧
      AgreesWithWalk queueFair t 1 := by
  have hrun : Runs.run (callStep queueFair) emptySys [.rewrite 1 tsTask, .enqueueTask 1 {}]
      = some _ := rfl
  refine ⟨_, hrun, (agreesWithWalk_iff queueFair_counts emptySys_empty hrun 1).mpr ?_⟩
  rintro ⟨hfair | hidle, -, -⟩
  · exact absurd hfair (by decide)
  · exact absurd hidle (by decide)

/-- The same queue, and the idle task before: it is picked again. -/
theorem agreesWithWalk_fails_after_idle :
    FairCounts queueFair ∧ EmptyRq emptySys ∧
      ∃ t, Runs.run (callStep queueFair) emptySys [.rewrite 1 tsTask, .enqueueTask 1 {}] = some t ∧
        ¬AgreesWithWalk queueFair t 0 := by
  refine ⟨queueFair_counts, emptySys_empty, _, rfl, ?_⟩
  intro hagree
  exact absurd hagree.same (by decide +kernel)

end Sched
