/-
A throttled CPU is released.

The measure is the time the CPU has accounted.  While it is throttled and runs no
real-time task, nobody can borrow from it and only the period timer touches it:
every visit takes its runtime, up to a period, off the measure, or releases it.  So
it is released once the timer has come by often enough, whatever the other CPUs do.
-/
import KernelProgramming.Proofs.Sched.BandwidthRuns

namespace Bandwidth

variable {n : Nat} {c : Config n} {b : Nat} {rqs : Rqs n}

/-- What every visit of the period timer takes off the time of a throttled CPU. -/
def grant (c : Config n) (rt : RtRq) : Nat := min rt.rtRuntime c.rtPeriod

/--
A CPU that is throttled now was so before, its grant has not shrunk, and `visits`
grants have been taken off its time.
-/
def Drains (c : Config n) (visits : Nat) (rt rt' : RtRq) : Prop :=
  rt'.rtThrottled = true → rt.rtThrottled = true ∧ grant c rt ≤ grant c rt' ∧
    rt'.rtTime + visits * grant c rt ≤ rt.rtTime

theorem Drains.of_same {rt rt' : RtRq} (hthrottled : rt'.rtThrottled = rt.rtThrottled)
    (hruntime : rt'.rtRuntime = rt.rtRuntime) (htime : rt'.rtTime = rt.rtTime) :
    Drains c 0 rt rt' := by
  intro hthr
  refine ⟨hthrottled.symm.trans hthr, ?_, ?_⟩
  · rw [grant, grant, hruntime]
  · omega

theorem Drains.refl (rt : RtRq) : Drains c 0 rt rt := .of_same rfl rfl rfl

theorem Drains.of_released {visits : Nat} {rt rt' : RtRq} (h : rt'.rtThrottled = false) :
    Drains c visits rt rt' := by
  intro hthr
  rw [h] at hthr
  cases hthr

theorem Drains.trans {k k' : Nat} {rt rt' rt'' : RtRq} (h : Drains c k rt rt')
    (h' : Drains c k' rt' rt'') : Drains c (k + k') rt rt'' := by
  intro hthr
  obtain ⟨hthr', hgrant', htime'⟩ := h' hthr
  obtain ⟨hthr₀, hgrant, htime⟩ := h hthr'
  refine ⟨hthr₀, hgrant.trans hgrant', ?_⟩
  have hmore : k' * grant c rt ≤ k' * grant c rt' := Nat.mul_le_mul_left k' hgrant
  rw [Nat.add_mul]
  omega

/-- Nobody borrows from a throttled CPU. -/
theorem Lent.drains {rt rt' : RtRq} (h : Lent rt rt') (hp : Paced c rt) : Drains c 0 rt rt' := by
  obtain ⟨hthrottled, htime, hlend⟩ := h
  cases hthr : rt.rtThrottled with
  | false => exact .of_released (hthrottled.trans hthr)
  | true =>
      have hused := hp.1 hthr
      exact .of_same hthrottled (by omega) htime

/-! ### One visit -/

/-- The time a visit leaves, when the product does not wrap. -/
theorem replenished_of_fits {overrun runtime rtTime : Nat} (hfits : overrun * runtime < 2 ^ 64) :
    replenished overrun runtime rtTime = rtTime - overrun * runtime := by
  have hint : (overrun * runtime : Int) < 2 ^ 64 := by exact_mod_cast hfits
  have hval : u64 (overrun * runtime : Int) = overrun * runtime := by
    have heq : (u64 (overrun * runtime : Int) : Int) = overrun * runtime :=
      u64_of_range (by positivity) hint
    exact_mod_cast heq
  rw [replenished, hval]
  omega

theorem schedRtPeriodVisit_drains (h : Inv c rqs) (hw : Within b rqs) (hb : b < 2 ^ 63)
    (hp : ∀ j, Paced c (rqs j).rt) {i : Fin n} {overrun : Nat} (hover : 1 ≤ overrun)
    (hfits : overrun * (n * c.rtRuntime) < 2 ^ 64) :
    Drains c 1 (rqs i).rt (schedRtPeriodVisit c rqs i overrun i).rt := by
  generalize hvisit : schedRtPeriodVisit c rqs i overrun = rqs'
  rw [schedRtPeriodVisit, reset_eq h i] at hvisit
  cases hthr : (rqs i).rt.rtThrottled with
  | false =>
      -- Only the CPU's own accounting throttles it.
      apply Drains.of_released
      simp only [hthr, Bool.false_eq_true, if_false, Rqs.modifyRt, Function.update_self,
        false_and] at hvisit
      split at hvisit
      · rw [← hvisit]
        exact hthr
      · split at hvisit
        · rw [← hvisit, Function.update_self]
        · obtain ⟨k, q, b, heq⟩ := requeued_schedRtRqEnqueue (rqs i)
          rw [← hvisit, Function.update_self, heq]
          exact hthr
  | true =>
      have hused := (hp i).1 hthr
      obtain ⟨hbor, hinv⟩ := balanceRuntime_spec h hw hb (rtRuntime_finite_of_throttled h hthr)
      have hgrow := hbor.borrower
      have htime := hbor.only.rtTime i
      have hstill : (balanceRuntime c rqs i i).rt.rtThrottled = true :=
        (hbor.only.rtThrottled i).trans hthr
      have hwrap : overrun * (balanceRuntime c rqs i i).rt.rtRuntime < 2 ^ 64 := by
        have hdue := rtRuntime_le hinv.balanced (rtRuntime_finite_of_throttled hinv hstill)
        have hle : overrun * (balanceRuntime c rqs i i).rt.rtRuntime ≤ overrun * (n * c.rtRuntime) :=
          Nat.mul_le_mul_left overrun (by exact_mod_cast hdue)
        omega
      simp only [hthr, if_true] at hvisit
      generalize balanceRuntime c rqs i = rqs₁ at hgrow htime hstill hwrap hvisit
      by_cases hzero : (rqs i).rt.rtTime = 0
      · -- Nothing is left to take down, as the runtime is nothing too.
        have hgrant : grant c (rqs i).rt = 0 := by
          rw [grant]
          omega
        have hsame : rqs' = rqs := by
          simp only [hzero, true_and, ne_eq, not_true_eq_false, if_false, ite_self] at hvisit
          exact hvisit.symm
        rw [hsame]
        intro _
        exact ⟨hthr, Nat.le_refl _, by omega⟩
      · have hleast : 1 * (rqs₁ i).rt.rtRuntime ≤ overrun * (rqs₁ i).rt.rtRuntime :=
          Nat.mul_le_mul_right _ hover
        simp only [hzero, false_and, if_false, ne_eq, not_false_eq_true, if_true, Rqs.modifyRt,
          Function.update_self, replenished_of_fits hwrap, hstill, true_and] at hvisit
        split at hvisit
        · apply Drains.of_released
          obtain ⟨k, q, b, heq⟩ := requeued_schedRtRqEnqueue
            { rqs₁ i with
              rt :=
                { (rqs₁ i).rt with
                  rtTime := (rqs₁ i).rt.rtTime - overrun * (rqs₁ i).rt.rtRuntime
                  rtThrottled := false } }
          rw [← hvisit, Function.update_self, heq]
        · rename_i hnot
          rw [← hvisit, Function.update_self]
          intro _
          simp only [grant]
          refine ⟨hthr, ?_, ?_⟩
          · omega
          · omega

/-! ### Whole runs -/

/-- How often the period timer visits the CPU. -/
def Op.visits (i : Fin n) : Op n → Nat
  | .periodVisit cpu _ => if cpu = i then 1 else 0
  | _ => 0

def visits (i : Fin n) (ops : List (Op n)) : Nat := (ops.map (Op.visits i)).sum

/--
The CPU `i` runs no real-time task and no CPU goes offline.  The period timer comes
by after one period at least, and not after so many that the product wraps.
-/
def Op.Waits (c : Config n) (i : Fin n) : Op n → Prop
  | .updateCurrRt cpu _ => cpu ≠ i
  | .periodVisit _ overrun => 1 ≤ overrun ∧ overrun * (n * c.rtRuntime) < 2 ^ 64
  | .setRqOffline _ => False
  | _ => True

instance (c : Config n) (i : Fin n) : (op : Op n) → Decidable (op.Waits c i)
  | .enqueueRt _ => inferInstanceAs (Decidable True)
  | .dequeueRt _ => inferInstanceAs (Decidable True)
  | .addOther _ => inferInstanceAs (Decidable True)
  | .subOther _ => inferInstanceAs (Decidable True)
  | .updateCurrRt _ _ => inferInstanceAs (Decidable (_ ≠ _))
  | .periodVisit _ _ => inferInstanceAs (Decidable (_ ∧ _))
  | .setRqOnline _ => inferInstanceAs (Decidable True)
  | .setRqOffline _ => inferInstanceAs (Decidable False)

theorem Op.Waits.not_offline {i : Fin n} {op : Op n} (h : op.Waits c i) : op.isOffline = false := by
  cases op with
  | setRqOffline cpu => exact h.elim
  | _ => rfl

/-- A number of tasks does not change what a CPU has used. -/
theorem enqueueTop_drains (rq : Rq) (nr k : Nat) :
    Drains c 0 rq.rt (enqueueTopRtRq
      { rq with nrRunning := k, rt := { rq.rt with rtQueued := false, rtNrRunning := nr } }).rt := by
  obtain ⟨k', q, b, heq⟩ := requeued_enqueueTopRtRq
    { rq with nrRunning := k, rt := { rq.rt with rtQueued := false, rtNrRunning := nr } }
  rw [heq]
  exact .of_same rfl rfl rfl

/-- An operation of the CPU itself, other than accounting. -/
theorem step_drains_own (h : Inv c rqs) (hw : Within b rqs) (hb : b < 2 ^ 63)
    (hp : ∀ j, Paced c (rqs j).rt) {op : Op n} (hop : op.Waits c op.cpu) {rqs' : Rqs n}
    (hstep : step c rqs op = some rqs') :
    Drains c (op.visits op.cpu) (rqs op.cpu).rt (rqs' op.cpu).rt := by
  cases op with
  | enqueueRt cpu =>
      rw [step, enqueueRtEntity_eq (h.tally cpu)] at hstep
      obtain rfl := Option.some.inj hstep
      simp only [Op.cpu, Function.update_self]
      exact enqueueTop_drains (rqs cpu) _ _
  | dequeueRt cpu =>
      simp only [Op.cpu]
      by_cases hnone : (rqs cpu).rt.rtNrRunning = 0
      · rw [step, dequeueRtEntity, if_pos hnone] at hstep
        obtain rfl := Option.some.inj hstep
        rw [Function.update_self]
        exact .refl _
      · rw [step, dequeueRtEntity_eq (h.tally cpu) hnone] at hstep
        obtain rfl := Option.some.inj hstep
        rw [Function.update_self]
        exact enqueueTop_drains (rqs cpu) _ _
  | addOther cpu =>
      obtain rfl := Option.some.inj hstep
      simp only [Op.cpu, Function.update_self]
      exact .of_same rfl rfl rfl
  | subOther cpu =>
      obtain rfl := Option.some.inj hstep
      simp only [Op.cpu, Function.update_self, subOther]
      split <;> exact .of_same rfl rfl rfl
  | updateCurrRt cpu deltaExec => exact absurd rfl hop
  | periodVisit cpu overrun =>
      obtain rfl := Option.some.inj hstep
      simp only [Op.cpu, Op.visits, if_true]
      exact schedRtPeriodVisit_drains h hw hb hp hop.1 hop.2
  | setRqOnline cpu =>
      obtain rfl := Option.some.inj hstep
      simp only [Op.cpu, setRqOnline]
      split
      · exact .refl _
      · apply Drains.of_released
        simp only [enableRuntime, Rqs.modifyRt, Function.update_self]
  | setRqOffline cpu => exact hop.elim

theorem step_drains (h : Inv c rqs) (hw : Within b rqs) {op : Op n}
    (hb : b + op.accounted < 2 ^ 63) (hp : ∀ j, Paced c (rqs j).rt) {i : Fin n}
    (hop : op.Waits c i) {rqs' : Rqs n} (hstep : step c rqs op = some rqs') :
    Drains c (op.visits i) (rqs i).rt (rqs' i).rt := by
  by_cases hi : i = op.cpu
  · subst hi
    exact step_drains_own h hw (by omega) hp hop hstep
  · obtain ⟨rqs₁, heq, -, -, hkeeps⟩ := step_keeps h hw op hb
    rw [hstep] at heq
    obtain rfl := Option.some.inj heq
    have hnone : op.visits i = 0 := by
      cases op with
      | periodVisit cpu overrun => exact if_neg (Ne.symm hi)
      | _ => rfl
    rw [hnone]
    exact ((hkeeps hop.not_offline).others i hi).drains (hp i)

theorem run_drains {i : Fin n} : ∀ (ops : List (Op n)) (rqs : Rqs n) (b : Nat), Inv c rqs →
    Within b rqs → b + accounted ops < 2 ^ 63 → (∀ j, Paced c (rqs j).rt) →
    (∀ op ∈ ops, op.Waits c i) →
    ∃ rqs', run c rqs ops = some rqs' ∧ Inv c rqs' ∧
      Drains c (visits i ops) (rqs i).rt (rqs' i).rt := by
  intro ops
  induction ops with
  | nil =>
      intro rqs b h _ _ _ _
      exact ⟨rqs, rfl, h, .refl _⟩
  | cons op rest ih =>
      intro rqs b h hw hb hp hops
      have hsplit : accounted (op :: rest) = op.accounted + accounted rest := by
        simp only [accounted, List.map_cons, List.sum_cons]
      have hvisits : visits i (op :: rest) = op.visits i + visits i rest := by
        simp only [visits, List.map_cons, List.sum_cons]
      rw [hsplit, ← Nat.add_assoc] at hb
      have hop := hops op List.mem_cons_self
      obtain ⟨rqs₁, hfirst, hinv₁, hwithin₁, hkeeps₁⟩ := step_keeps h hw op (by omega)
      obtain ⟨rqs', hrest, hinv, hdrains⟩ := ih rqs₁ _ hinv₁ hwithin₁ hb
        ((hkeeps₁ hop.not_offline).paced hp) fun a ha => hops a (List.mem_cons_of_mem op ha)
      refine ⟨rqs', ?_, hinv, ?_⟩
      · rw [run, Runs.run, hfirst]
        exact hrest
      · rw [hvisits]
        exact (step_drains h hw (by omega) hp hop hfirst).trans hdrains

/--
**A throttled CPU is released.**  Take any run after boot in which no CPU goes
offline, and let it go on while CPU `i` runs no real-time task, whatever the others
do.  Once the period timer has visited `i` so often that the visits are worth more
than the time `i` has accounted, `i` is not throttled, and its real-time tasks, if it
has any, are on the runqueue.
-/
theorem throttled_released (c : Config n) (before after : List (Op n)) (i : Fin n) {rqs : Rqs n}
    (hbefore : run c (bootRqs c) before = some rqs)
    (hclock : accounted before + accounted after < 2 ^ 63)
    (hon : ∀ op ∈ before, op.isOffline = false) (hafter : ∀ op ∈ after, op.Waits c i)
    (hvisits : (rqs i).rt.rtTime < visits i after * grant c (rqs i).rt) :
    ∃ rqs', run c rqs after = some rqs' ∧ (rqs' i).rt.rtThrottled = false ∧
      ((rqs' i).rt.rtQueued = true ↔ (rqs' i).rt.rtNrRunning ≠ 0) := by
  obtain ⟨rqs₀, hrun, hinv, hwithin, hpaced⟩ :=
    run_keeps before (bootRqs c) 0 (bootRqs_inv c) (bootRqs_within c) (by omega)
  rw [hbefore] at hrun
  obtain rfl := Option.some.inj hrun
  obtain ⟨rqs', hafterRun, hinv', hdrains⟩ :=
    run_drains after rqs _ hinv hwithin (by omega) (hpaced hon (bootRqs_paced c)) hafter
  have hreleased : (rqs' i).rt.rtThrottled = false := by
    cases hthr : (rqs' i).rt.rtThrottled with
    | false => rfl
    | true =>
        have hleft := (hdrains hthr).2.2
        omega
  refine ⟨rqs', hafterRun, hreleased, ?_⟩
  rw [(hinv'.tally i).queued]
  simp only [hreleased, true_and]

theorem throttled_released_twoCpus :
    (run twoCpus (bootRqs twoCpus) lendOps).any (fun rqs => (rqs 1).rt.rtThrottled) = true ∧
      ∀ rqs, run twoCpus (bootRqs twoCpus) lendOps = some rqs →
        ∃ rqs', run twoCpus rqs releaseOps = some rqs' ∧ (rqs' 1).rt.rtThrottled = false ∧
          ((rqs' 1).rt.rtQueued = true ↔ (rqs' 1).rt.rtNrRunning ≠ 0) := by
  refine ⟨by decide +kernel, fun rqs hrun => ?_⟩
  refine throttled_released twoCpus lendOps releaseOps 1 hrun (by decide) (by decide) (by decide) ?_
  have hmany : (run twoCpus (bootRqs twoCpus) lendOps).all (fun rqs =>
      decide ((rqs 1).rt.rtTime < visits 1 releaseOps * grant twoCpus (rqs 1).rt)) = true := by
    decide +kernel
  rw [hrun] at hmany
  exact of_decide_eq_true hmany

end Bandwidth
