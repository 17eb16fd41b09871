/-
The throttling of one CPU is that of the domain.

`Sched.Rt` has one CPU and asks the clock whether its real-time tasks have run for
too long; `Sched.Bandwidth` works that out for every CPU of the domain, with the
time they lend each other, and only counts the tasks.  Both keep `nr_running`,
`rt_nr_running`, `rt_queued`, `rt_throttled` and the mark for rescheduling.  Where
they agree on these, whatever the domain makes of `update_curr_rt` and of a visit of
the period timer, there is an answer of the clock with which the scheduler makes the
same of it: nothing the domain can do to a CPU is left out there.
-/
import KernelProgramming.Sched.Bandwidth
import KernelProgramming.Sched.Rt

namespace Sched

open Bandwidth (Rq Rqs Config)

variable {X : Type} {s : Sys X} {n : Nat} {c : Config n} {rq rq' : Rq} {rqs rqs' : Rqs n}
  {this : Fin n}

/-- The scheduler and the domain agree on the CPU. -/
structure SameRq (s : Sys X) (rq : Rq) : Prop where
  nrRunning : s.nrRunning = rq.nrRunning
  rtNrRunning : s.rtNrRunning = rq.rt.rtNrRunning
  rtQueued : s.rtQueued = rq.rt.rtQueued
  rtThrottled : s.rtThrottled = rq.rt.rtThrottled
  needResched : s.needResched = rq.needResched

/-! ### On and off the runqueue -/

theorem SameRq.dequeueTop (h : SameRq s rq) (hd : Bandwidth.dequeueTopRtRq rq = some rq') :
    SameRq (dequeueTopRtRq s) rq' := by
  unfold Bandwidth.dequeueTopRtRq at hd
  unfold dequeueTopRtRq
  rw [h.rtQueued]
  split_ifs at hd ⊢ with hqueued hzero
  · cases hd
    exact h
  · cases hd
    refine ⟨?_, h.rtNrRunning, rfl, h.rtThrottled, h.needResched⟩
    show s.nrRunning - s.rtNrRunning = rq.nrRunning - rq.rt.rtNrRunning
    rw [h.nrRunning, h.rtNrRunning]

theorem SameRq.enqueueTop (h : SameRq s rq) :
    SameRq (enqueueTopRtRq s) (Bandwidth.enqueueTopRtRq rq) := by
  unfold enqueueTopRtRq Bandwidth.enqueueTopRtRq
  rw [h.rtQueued, h.rtThrottled, h.rtNrRunning]
  split_ifs with hqueued hthrottled hnone
  · exact h
  · exact h
  · refine ⟨?_, h.rtNrRunning, rfl, h.rtThrottled, h.needResched⟩
    show s.nrRunning + rq.rt.rtNrRunning = rq.nrRunning + rq.rt.rtNrRunning
    rw [h.nrRunning]
  · exact h

theorem SameRq.resched (h : SameRq s rq) : SameRq s.reschedCurr rq.reschedCurr :=
  ⟨h.nrRunning, h.rtNrRunning, h.rtQueued, h.rtThrottled, rfl⟩

theorem SameRq.rtRqEnqueue (h : SameRq s rq) :
    SameRq (schedRtRqEnqueue s) (Bandwidth.schedRtRqEnqueue rq) := by
  unfold schedRtRqEnqueue Bandwidth.schedRtRqEnqueue
  rw [h.rtNrRunning]
  split
  · exact h
  · exact h.enqueueTop.resched

theorem SameRq.throttle (h : SameRq s rq) (throttled : Bool) :
    SameRq { s with rtThrottled := throttled } { rq with rt := { rq.rt with rtThrottled := throttled } } :=
  ⟨h.nrRunning, h.rtNrRunning, h.rtQueued, rfl, h.needResched⟩

theorem SameRq.withPriv (h : SameRq s rq) (priv : X) : SameRq { s with priv := priv } rq :=
  ⟨h.nrRunning, h.rtNrRunning, h.rtQueued, h.rtThrottled, h.needResched⟩

/-! ### The time -/

/-- What the time and the runtime of any CPU are makes no difference. -/
theorem SameRq.modifyRt (h : SameRq s (rqs this)) (i : Fin n) {f : Bandwidth.RtRq → Bandwidth.RtRq}
    (hf : ∀ rt, (f rt).rtNrRunning = rt.rtNrRunning ∧ (f rt).rtQueued = rt.rtQueued ∧
      (f rt).rtThrottled = rt.rtThrottled) : SameRq s (rqs.modifyRt i f this) := by
  unfold Rqs.modifyRt
  by_cases hi : this = i
  · subst hi
    rw [Function.update_self]
    obtain ⟨hnumber, hqueued, hthrottled⟩ := hf (rqs this).rt
    exact ⟨h.nrRunning, h.rtNrRunning.trans hnumber.symm, h.rtQueued.trans hqueued.symm,
      h.rtThrottled.trans hthrottled.symm, h.needResched⟩
  · rwa [Function.update_of_ne hi]

theorem SameRq.setRuntime (h : SameRq s (rqs this)) (i : Fin n) (runtime : Nat) :
    SameRq s (rqs.setRuntime i runtime this) :=
  h.modifyRt i fun _ => ⟨rfl, rfl, rfl⟩

theorem SameRq.balanceLoop {period weight : Nat} {borrower : Fin n} : ∀ (l : List (Fin n))
    {rqs : Rqs n}, SameRq s (rqs this) →
      SameRq s (Bandwidth.doBalanceLoop period weight borrower l rqs this) := by
  intro l
  induction l with
  | nil => exact fun h => h
  | cons i rest ih =>
      intro rqs h
      rw [Bandwidth.doBalanceLoop]
      dsimp only
      split
      · exact ih h
      · split
        · -- What the neighbour gives up and what the borrower gets is time only.
          split
          · exact (h.setRuntime i _).setRuntime borrower _
          · exact ih ((h.setRuntime i _).setRuntime borrower _)
        · exact ih h

theorem SameRq.balance (h : SameRq s (rqs this)) (borrower : Fin n) :
    SameRq s (Bandwidth.balanceRuntime c rqs borrower this) := by
  unfold Bandwidth.balanceRuntime
  split
  · exact h
  · split
    · exact SameRq.balanceLoop _ h
    · exact h

/-! ### Throttling -/

theorem schedRtRuntimeExceeded_withPriv (s : Sys X) (priv : X) (exceeded : Bool) :
    schedRtRuntimeExceeded { s with priv := priv } exceeded
      = ((schedRtRuntimeExceeded s exceeded).1,
          { (schedRtRuntimeExceeded s exceeded).2 with priv := priv }) := by
  unfold schedRtRuntimeExceeded dequeueTopRtRq
  split_ifs <;> rfl

theorem SameRq.exceeded {result : Bool} (h : SameRq s (rqs this))
    (hr : Bandwidth.schedRtRuntimeExceeded c rqs this = some (rqs', result)) :
    ∃ exceeded, (schedRtRuntimeExceeded s exceeded).1 = result ∧
      SameRq (schedRtRuntimeExceeded s exceeded).2 (rqs' this) := by
  have hunfold : ∀ exceeded, schedRtRuntimeExceeded s exceeded
      = if (rqs this).rt.rtThrottled then (true, s)
        else if exceeded then (true, dequeueTopRtRq { s with rtThrottled := true })
        else (false, s) := by
    intro exceeded
    rw [schedRtRuntimeExceeded, h.rtThrottled]
  have hbalanced : SameRq s (Bandwidth.balanceRuntime c rqs this this) := h.balance this
  unfold Bandwidth.schedRtRuntimeExceeded at hr
  by_cases hthrottled : (rqs this).rt.rtThrottled = true
  · rw [if_pos hthrottled] at hr
    cases hr
    refine ⟨false, ?_⟩
    rw [hunfold, if_pos hthrottled]
    exact ⟨rfl, h⟩
  · -- A CPU that is not throttled is asked whether it has used up its time.
    have hfalse : schedRtRuntimeExceeded s false = (false, s) := by
      rw [hunfold, if_neg hthrottled]
      rfl
    have htrue : schedRtRuntimeExceeded s true
        = (true, dequeueTopRtRq { s with rtThrottled := true }) := by
      rw [hunfold, if_neg hthrottled]
      rfl
    have hno : SameRq s (rqs' this) → result = false →
        ∃ exceeded, (schedRtRuntimeExceeded s exceeded).1 = result ∧
          SameRq (schedRtRuntimeExceeded s exceeded).2 (rqs' this) := by
      rintro hsame rfl
      refine ⟨false, ?_⟩
      rw [hfalse]
      exact ⟨rfl, hsame⟩
    rw [if_neg hthrottled] at hr
    dsimp only at hr
    split at hr
    · cases hr
      exact hno h rfl
    · split at hr
      · cases hr
        exact hno hbalanced rfl
      · split at hr
        · split at hr
          · obtain ⟨rq, hdequeue, heq⟩ := Option.map_eq_some_iff.mp hr
            cases heq
            refine ⟨true, ?_⟩
            rw [htrue, Function.update_self]
            refine ⟨rfl, SameRq.dequeueTop ?_ hdequeue⟩
            unfold Rqs.modifyRt
            rw [Function.update_self]
            exact hbalanced.throttle true
          · cases hr
            exact hno (hbalanced.modifyRt this fun _ => ⟨rfl, rfl, rfl⟩) rfl
        · cases hr
          exact hno hbalanced rfl

/-- **`update_curr_rt`**: with the right answer of the clock the scheduler does what the domain
does, however much time has passed and whatever the other CPUs have lent. -/
theorem updateCurrRt_follows {deltaExec : Nat} (h : SameRq s (rqs this))
    (hrt : (s.task s.curr).schedClass = .rt)
    (hu : Bandwidth.updateCurrRt c rqs this deltaExec = some rqs') :
    ∃ counted exceeded, ∀ other : OtherClasses X, (other.rtAccount s).counted = counted →
      (other.rtAccount s).exceeded = exceeded → SameRq (updateCurrRt other s) (rqs' this) := by
  have hidle : SameRq s (rqs' this) → ∃ counted exceeded, ∀ other : OtherClasses X,
      (other.rtAccount s).counted = counted → (other.rtAccount s).exceeded = exceeded →
        SameRq (updateCurrRt other s) (rqs' this) := by
    intro hsame
    refine ⟨false, false, fun other hcounted _ => ?_⟩
    unfold updateCurrRt
    rw [if_neg (fun hne => hne hrt)]
    dsimp only
    rw [hcounted]
    exact hsame.withPriv _
  unfold Bandwidth.updateCurrRt at hu
  split at hu
  · cases hu
    exact hidle h
  · split at hu
    · cases hu
      exact hidle h
    · split at hu
      · cases hu
        exact hidle h
      · obtain ⟨⟨rqs₁, result⟩, hexceeded, heq⟩ := Option.map_eq_some_iff.mp hu
        have hlater : SameRq s (rqs.modifyRt this (fun rt =>
            { rt with rtTime := Bandwidth.u64 (rt.rtTime + deltaExec) }) this) :=
          h.modifyRt this fun _ => ⟨rfl, rfl, rfl⟩
        obtain ⟨exceeded, hresult, hsame⟩ := hlater.exceeded hexceeded
        refine ⟨true, exceeded, fun other hcounted hexc => ?_⟩
        unfold updateCurrRt
        rw [if_neg (fun hne => hne hrt)]
        dsimp only
        rw [hcounted, hexc, schedRtRuntimeExceeded_withPriv, hresult, ← heq]
        dsimp only
        cases result with
        | false => exact hsame.withPriv _
        | true =>
            show SameRq _ (Function.update rqs₁ this (rqs₁ this).reschedCurr this)
            rw [Function.update_self]
            exact (hsame.withPriv _).resched

/-- The turn of the loop that a CPU gets in `do_sched_rt_period_timer`: the same. -/
theorem doSchedRtPeriodTimer_follows {overrun : Nat} (h : SameRq s (rqs this)) :
    ∃ timed within, ∀ other : OtherClasses X, (other.rtPeriod s).timed = timed →
      (other.rtPeriod s).within = within →
        SameRq (doSchedRtPeriodTimer other s)
          (Bandwidth.schedRtPeriodVisit c rqs this overrun this) := by
  unfold Bandwidth.schedRtPeriodVisit
  generalize hrefilled : (if !c.rtRuntimeShare && decide ((rqs this).rt.rtRuntime ≠
    Bandwidth.runtimeInf) then rqs.setRuntime this c.rtRuntime else rqs) = refilled
  have hfrom : SameRq s (refilled this) := by
    rw [← hrefilled]
    split
    · exact h.setRuntime this _
    · exact h
  dsimp only
  split
  · -- Nothing runs and no time is on the account: the scheduler has nothing to put back.
    rename_i hidle
    refine ⟨false, false, fun other htimed _ => ?_⟩
    have hnone : s.rtNrRunning = 0 := hfrom.rtNrRunning.trans hidle.2
    unfold doSchedRtPeriodTimer
    dsimp only
    rw [htimed, if_neg Bool.false_ne_true]
    split
    · exact hfrom.withPriv _
    · rw [schedRtRqEnqueue, if_pos hnone]
      exact hfrom.withPriv _
  · split
    · generalize hbalanced : (if (refilled this).rt.rtThrottled then
        Bandwidth.balanceRuntime c refilled this else refilled) = balanced
      have hlent : SameRq s (balanced this) := by
        rw [← hbalanced]
        split
        · exact hfrom.balance this
        · exact hfrom
      generalize hpaid : balanced.modifyRt this (fun rt =>
        { rt with
          rtTime := Bandwidth.replenished overrun (balanced this).rt.rtRuntime rt.rtTime }) = paid
      have hafter : SameRq s (paid this) := by
        rw [← hpaid]
        exact hlent.modifyRt this fun _ => ⟨rfl, rfl, rfl⟩
      split
      · rename_i hrelease
        refine ⟨true, true, fun other htimed hwithin => ?_⟩
        unfold doSchedRtPeriodTimer
        dsimp only
        rw [htimed, hwithin, if_pos rfl, if_pos ⟨hafter.rtThrottled.trans hrelease.1, rfl⟩,
          Function.update_self]
        refine SameRq.rtRqEnqueue ?_
        unfold Rqs.modifyRt
        rw [Function.update_self]
        exact (hafter.withPriv (other.rtPeriod s).priv).throttle false
      · refine ⟨true, false, fun other htimed hwithin => ?_⟩
        unfold doSchedRtPeriodTimer
        dsimp only
        rw [htimed, hwithin, if_pos rfl, if_neg (fun hw => Bool.false_ne_true hw.2)]
        exact hafter.withPriv _
    · refine ⟨false, false, fun other htimed _ => ?_⟩
      unfold doSchedRtPeriodTimer
      dsimp only
      rw [htimed, if_neg Bool.false_ne_true, ← hfrom.rtThrottled]
      split_ifs
      · exact hfrom.withPriv _
      · rw [Function.update_self]
        exact (hfrom.withPriv _).rtRqEnqueue

end Sched
