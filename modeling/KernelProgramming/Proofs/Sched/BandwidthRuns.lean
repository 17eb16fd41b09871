/-
Real-time bandwidth over whole runs.

What every operation keeps is `Inv`: the excesses add up to nothing, a CPU has a
finite runtime exactly while it is online, and its real-time tasks are counted in
`nr_running` exactly while they may run.  Neither `BUG_ON` fires where it holds.  On
top of it comes the pace of a CPU: throttled, it has used up its runtime; not
throttled, it is within its runtime, unless that is a whole period.
-/
import KernelProgramming.Proofs.Sched.BandwidthShares

namespace Bandwidth

variable {n : Nat}

/-! ### What holds of a CPU -/

/-- Its runtime, and what follows from having none set. -/
structure Due (c : Config n) (rq : Rq) : Prop where
  finite : rq.rt.rtRuntime ≠ runtimeInf ↔ rq.online = true ∧ c.rtRuntime ≠ runtimeInf
  exact : c.rtRuntimeShare = false → excess c rq.rt = 0
  off : rq.rt.rtRuntime = runtimeInf → rq.rt.rtThrottled = false

/-- Its real-time tasks are on the runqueue exactly while they may run. -/
structure Tally (rq : Rq) : Prop where
  queued : rq.rt.rtQueued = true ↔ rq.rt.rtThrottled = false ∧ rq.rt.rtNrRunning ≠ 0
  count : rq.nrRunning = rq.otherNrRunning + if rq.rt.rtQueued then rq.rt.rtNrRunning else 0

structure Inv (c : Config n) (rqs : Rqs n) : Prop where
  balanced : Shares.Balanced (excesses c rqs)
  due : ∀ i, Due c (rqs i)
  tally : ∀ i, Tally (rqs i)

/-- How far a CPU's real-time tasks may have got. -/
def Paced (c : Config n) (rt : RtRq) : Prop :=
  (rt.rtThrottled = true → rt.rtRuntime ≤ rt.rtTime) ∧
    (rt.rtThrottled = false → rt.rtTime ≤ rt.rtRuntime ∨ c.rtPeriod ≤ rt.rtRuntime)

/-- No CPU has accounted more than `b` nanoseconds since its time was last taken down. -/
def Within (b : Nat) (rqs : Rqs n) : Prop := ∀ i, (rqs i).rt.rtTime ≤ b

theorem forall_update {P : Rq → Prop} {rqs : Rqs n} {i : Fin n} {rq : Rq}
    (h : ∀ j, P (rqs j)) (hrq : P rq) : ∀ j, P (Function.update rqs i rq j) := by
  intro j
  by_cases hj : j = i
  · subst hj
    rw [Function.update_self]
    exact hrq
  · rw [Function.update_of_ne hj]
    exact h j

/-- A CPU whose excess does not change may be replaced. -/
theorem Inv.update {c : Config n} {rqs : Rqs n} (h : Inv c rqs) {i : Fin n} {rq : Rq}
    (hex : excess c rq.rt = excess c (rqs i).rt) (hdue : Due c rq) (htally : Tally rq) :
    Inv c (Function.update rqs i rq) where
  balanced := by
    rw [excesses_update]
    exact h.balanced.update_same hex
  due := forall_update h.due hdue
  tally := forall_update h.tally htally

theorem Inv.rtRuntime_finite {c : Config n} {rqs : Rqs n} (h : Inv c rqs) {i : Fin n}
    (hi : (rqs i).rt.rtRuntime ≠ runtimeInf) : c.rtRuntime ≠ runtimeInf :=
  ((h.due i).finite.mp hi).2

/-! ### On and off the runqueue -/

/-- Only the place on the runqueue differs. -/
def Requeued (rq rq' : Rq) : Prop :=
  ∃ k q b, rq' =
    { rq with nrRunning := k, rt := { rq.rt with rtQueued := q }, needResched := b }

theorem Requeued.excess_eq {c : Config n} {rq rq' : Rq} (h : Requeued rq rq') :
    excess c rq'.rt = excess c rq.rt := by
  obtain ⟨k, q, b, rfl⟩ := h
  rfl

theorem Requeued.due {c : Config n} {rq rq' : Rq} (h : Requeued rq rq') (hdue : Due c rq) :
    Due c rq' := by
  obtain ⟨k, q, b, rfl⟩ := h
  exact ⟨hdue.finite, hdue.exact, hdue.off⟩

theorem Requeued.paced {c : Config n} {rq rq' : Rq} (h : Requeued rq rq')
    (hpaced : Paced c rq.rt) : Paced c rq'.rt := by
  obtain ⟨k, q, b, rfl⟩ := h
  exact hpaced

theorem Requeued.rtTime {rq rq' : Rq} (h : Requeued rq rq') : rq'.rt.rtTime = rq.rt.rtTime := by
  obtain ⟨k, q, b, rfl⟩ := h
  rfl

theorem requeued_enqueueTopRtRq (rq : Rq) : Requeued rq (enqueueTopRtRq rq) := by
  rw [enqueueTopRtRq]
  split
  · exact ⟨rq.nrRunning, rq.rt.rtQueued, rq.needResched, rfl⟩
  · split
    · exact ⟨rq.nrRunning, rq.rt.rtQueued, rq.needResched, rfl⟩
    · split
      · exact ⟨_, _, rq.needResched, rfl⟩
      · exact ⟨rq.nrRunning, rq.rt.rtQueued, rq.needResched, rfl⟩

theorem requeued_schedRtRqEnqueue (rq : Rq) : Requeued rq (schedRtRqEnqueue rq) := by
  rw [schedRtRqEnqueue]
  split
  · exact ⟨rq.nrRunning, rq.rt.rtQueued, rq.needResched, rfl⟩
  · obtain ⟨k, q, b, heq⟩ := requeued_enqueueTopRtRq rq
    exact ⟨k, q, true, by rw [heq]; rfl⟩

/-- Tasks that may not run are not on the runqueue, but some that may run can be missing. -/
structure Pending (rq : Rq) : Prop where
  queued : rq.rt.rtQueued = true → rq.rt.rtThrottled = false ∧ rq.rt.rtNrRunning ≠ 0
  count : rq.nrRunning = rq.otherNrRunning + if rq.rt.rtQueued then rq.rt.rtNrRunning else 0

theorem tally_enqueueTopRtRq {rq : Rq} (h : Pending rq) : Tally (enqueueTopRtRq rq) := by
  have hcount := h.count
  rw [enqueueTopRtRq]
  split
  · rename_i hq
    exact ⟨⟨h.queued, fun _ => hq⟩, hcount⟩
  · rename_i hq
    rw [if_neg hq] at hcount
    split
    · rename_i hthr
      refine ⟨⟨h.queued, fun hrun => ?_⟩, ?_⟩
      · rw [hrun.1] at hthr
        cases hthr
      · rw [if_neg hq]
        exact hcount
    · rename_i hthr
      split
      · rename_i hnr
        refine ⟨⟨fun _ => ⟨by simpa using hthr, hnr⟩, fun _ => rfl⟩, ?_⟩
        simp only [if_true]
        omega
      · rename_i hnr
        refine ⟨⟨h.queued, fun hrun => absurd hrun.2 hnr⟩, ?_⟩
        rw [if_neg hq]
        exact hcount

theorem tally_schedRtRqEnqueue {rq : Rq} (h : Pending rq) : Tally (schedRtRqEnqueue rq) := by
  rw [schedRtRqEnqueue]
  split
  · rename_i hnone
    exact ⟨⟨h.queued, fun hrun => absurd hnone hrun.2⟩, h.count⟩
  · have htally := tally_enqueueTopRtRq h
    exact ⟨htally.queued, htally.count⟩

/-- `dequeue_top_rt_rq` does not reach its `BUG_ON` and leaves the other classes' tasks. -/
theorem dequeueTopRtRq_eq {rq : Rq} (hq : rq.rt.rtQueued = true → rq.rt.rtNrRunning ≠ 0)
    (hcount : rq.nrRunning = rq.otherNrRunning + if rq.rt.rtQueued then rq.rt.rtNrRunning else 0) :
    dequeueTopRtRq rq =
      some { rq with
        nrRunning := rq.otherNrRunning
        rt := { rq.rt with rtQueued := false } } := by
  rw [dequeueTopRtRq]
  cases hqueued : rq.rt.rtQueued with
  | false =>
      rw [hqueued] at hcount
      simp only [Bool.false_eq_true, if_false, Nat.add_zero] at hcount
      have hsame : { rq with
          nrRunning := rq.nrRunning
          rt := { rq.rt with rtQueued := rq.rt.rtQueued } } = rq := rfl
      rw [hcount, hqueued] at hsame
      simp only [Bool.not_false, if_true]
      rw [hsame]
  | true =>
      have hsome := hq hqueued
      rw [hqueued] at hcount
      simp only [if_true] at hcount
      have hpos : rq.nrRunning ≠ 0 := by omega
      have hleft : rq.nrRunning - rq.rt.rtNrRunning = rq.otherNrRunning := by omega
      simp only [Bool.not_true, Bool.false_eq_true, if_false, if_neg hpos, hleft]

theorem Tally.pending {rq : Rq} (h : Tally rq) : Pending rq := ⟨h.queued.mp, h.count⟩

/-! ### Operations on one CPU -/

/--
What an operation may do to a CPU other than its own: borrow from it, if it has time
to spare and keeps some.
-/
def Lent (rt rt' : RtRq) : Prop :=
  rt'.rtThrottled = rt.rtThrottled ∧ rt'.rtTime = rt.rtTime ∧
    (rt'.rtRuntime = rt.rtRuntime ∨ rt.rtTime < rt.rtRuntime ∧ rt.rtTime < rt'.rtRuntime)

theorem Lent.refl (rt : RtRq) : Lent rt rt := ⟨rfl, rfl, .inl rfl⟩

theorem Lent.of_eq {rq rq' : Rq} (h : rq' = rq) : Lent rq.rt rq'.rt := by
  rw [h]
  exact .refl rq.rt

/-- A lender keeps its pace. -/
theorem Lent.paced {c : Config n} {rt rt' : RtRq} (h : Lent rt rt') (hp : Paced c rt) :
    Paced c rt' := by
  obtain ⟨hthrottled, htime, hlend⟩ := h
  obtain ⟨hthr, hrun⟩ := hp
  refine ⟨fun ht => ?_, fun ht => ?_⟩
  · rw [hthrottled] at ht
    have hused := hthr ht
    omega
  · rw [hthrottled] at ht
    have hused := hrun ht
    omega

/-- What an operation of the CPU `this` keeps: the invariant, and everybody's pace. -/
structure Keeps (c : Config n) (b : Nat) (this : Fin n) (rqs rqs' : Rqs n) : Prop where
  inv : Inv c rqs'
  within : Within b rqs'
  others : ∀ j, j ≠ this → Lent (rqs j).rt (rqs' j).rt
  self : Paced c (rqs this).rt → Paced c (rqs' this).rt

variable {c : Config n} {b : Nat} {rqs : Rqs n}

theorem Keeps.refl (h : Inv c rqs) (hw : Within b rqs) (this : Fin n) : Keeps c b this rqs rqs :=
  ⟨h, hw, fun j _ => .refl (rqs j).rt, fun hp => hp⟩

theorem Keeps.paced {this : Fin n} {rqs' : Rqs n} (h : Keeps c b this rqs rqs')
    (hp : ∀ j, Paced c (rqs j).rt) (j : Fin n) : Paced c (rqs' j).rt := by
  by_cases hj : j = this
  · subst hj
    exact h.self (hp j)
  · exact (h.others j hj).paced (hp j)

theorem Keeps.update {i : Fin n} {rq : Rq} (h : Inv c rqs) (hw : Within b rqs)
    (hex : excess c rq.rt = excess c (rqs i).rt) (hdue : Due c rq) (htally : Tally rq)
    (htime : rq.rt.rtTime ≤ b) (hpaced : Paced c (rqs i).rt → Paced c rq.rt) :
    Keeps c b i rqs (Function.update rqs i rq) where
  inv := h.update hex hdue htally
  within := forall_update (P := fun rq => rq.rt.rtTime ≤ b) hw htime
  others _ hj := .of_eq (Function.update_of_ne hj rq rqs)
  self hp := by
    rw [Function.update_self]
    exact hpaced hp

/-- A CPU that gets a new number of tasks and is put back on its runqueue. -/
theorem keeps_enqueueTop {i : Fin n} (h : Inv c rqs) (hw : Within b rqs) (nr : Nat) :
    Keeps c b i rqs (Function.update rqs i (enqueueTopRtRq
      { rqs i with
        nrRunning := (rqs i).otherNrRunning
        rt := { (rqs i).rt with rtQueued := false, rtNrRunning := nr } })) := by
  have hreq := requeued_enqueueTopRtRq
    { rqs i with
      nrRunning := (rqs i).otherNrRunning
      rt := { (rqs i).rt with rtQueued := false, rtNrRunning := nr } }
  have hdue := h.due i
  refine Keeps.update h hw ?_ ?_ ?_ ?_ ?_
  · rw [hreq.excess_eq]
    rfl
  · exact hreq.due ⟨hdue.finite, hdue.exact, hdue.off⟩
  · exact tally_enqueueTopRtRq ⟨fun hq => absurd hq Bool.false_ne_true, rfl⟩
  · rw [hreq.rtTime]
    exact hw i
  · intro hp
    exact hreq.paced hp

theorem dequeueTopRtRq_of_tally {rq : Rq} (h : Tally rq) :
    dequeueTopRtRq rq =
      some { rq with nrRunning := rq.otherNrRunning, rt := { rq.rt with rtQueued := false } } :=
  dequeueTopRtRq_eq (fun hq => (h.queued.mp hq).2) h.count

theorem enqueueRtEntity_eq {rq : Rq} (h : Tally rq) :
    enqueueRtEntity rq =
      some (enqueueTopRtRq
        { rq with
          nrRunning := rq.otherNrRunning
          rt := { rq.rt with rtQueued := false, rtNrRunning := rq.rt.rtNrRunning + 1 } }) := by
  rw [enqueueRtEntity, dequeueTopRtRq_of_tally h]
  rfl

theorem dequeueRtEntity_eq {rq : Rq} (h : Tally rq) (hsome : rq.rt.rtNrRunning ≠ 0) :
    dequeueRtEntity rq =
      some (enqueueTopRtRq
        { rq with
          nrRunning := rq.otherNrRunning
          rt := { rq.rt with rtQueued := false, rtNrRunning := rq.rt.rtNrRunning - 1 } }) := by
  rw [dequeueRtEntity, if_neg hsome, dequeueTopRtRq_of_tally h]
  rfl

theorem enqueueRtEntity_keeps (h : Inv c rqs) (hw : Within b rqs) (i : Fin n) :
    ∃ rq, enqueueRtEntity (rqs i) = some rq ∧ Keeps c b i rqs (Function.update rqs i rq) :=
  ⟨_, enqueueRtEntity_eq (h.tally i), keeps_enqueueTop h hw ((rqs i).rt.rtNrRunning + 1)⟩

theorem dequeueRtEntity_keeps (h : Inv c rqs) (hw : Within b rqs) (i : Fin n) :
    ∃ rq, dequeueRtEntity (rqs i) = some rq ∧ Keeps c b i rqs (Function.update rqs i rq) := by
  by_cases hnone : (rqs i).rt.rtNrRunning = 0
  · refine ⟨rqs i, if_pos hnone, ?_⟩
    rw [Function.update_eq_self]
    exact .refl h hw i
  · exact ⟨_, dequeueRtEntity_eq (h.tally i) hnone,
      keeps_enqueueTop h hw ((rqs i).rt.rtNrRunning - 1)⟩

theorem addOther_keeps (h : Inv c rqs) (hw : Within b rqs) (i : Fin n) :
    Keeps c b i rqs (Function.update rqs i (addOther (rqs i))) := by
  have hdue := h.due i
  have htally := h.tally i
  refine Keeps.update h hw rfl ⟨hdue.finite, hdue.exact, hdue.off⟩
    ⟨htally.queued, ?_⟩ (hw i) fun hp => hp
  simp only [addOther]
  rw [htally.count]
  exact Nat.add_right_comm ..

theorem subOther_keeps (h : Inv c rqs) (hw : Within b rqs) (i : Fin n) :
    Keeps c b i rqs (Function.update rqs i (subOther (rqs i))) := by
  have hdue := h.due i
  have htally := h.tally i
  rw [subOther]
  split
  · rw [Function.update_eq_self]
    exact .refl h hw i
  · refine Keeps.update h hw rfl ⟨hdue.finite, hdue.exact, hdue.off⟩
      ⟨htally.queued, ?_⟩ (hw i) fun hp => hp
    have hcount := htally.count
    simp only
    omega

/-! ### Accounting -/

theorem Within.timesFit (hw : Within b rqs) (hb : b < 2 ^ 63) : TimesFit rqs := by
  intro j
  have hj := hw j
  omega

/-- Where CPUs share their runtime, moving it about keeps what holds of each of them. -/
theorem OnlyRuntime.due {rqs' : Rqs n} (h : OnlyRuntime rqs rqs') (hshare : c.rtRuntimeShare = true)
    {j : Fin n} (hdue : Due c (rqs j)) : Due c (rqs' j) := by
  have hinf := h.inf_iff j
  refine ⟨?_, fun hoff => ?_, fun hoff => ?_⟩
  · obtain ⟨v, hv, -⟩ := h j
    rw [ne_eq, hinf, hv]
    exact hdue.finite
  · rw [hshare] at hoff
    cases hoff
  · rw [h.rtThrottled j]
    exact hdue.off (hinf.mp hoff)

theorem OnlyRuntime.tally {rqs' : Rqs n} (h : OnlyRuntime rqs rqs') {j : Fin n}
    (htally : Tally (rqs j)) : Tally (rqs' j) := by
  obtain ⟨v, hv, -⟩ := h j
  rw [hv]
  exact ⟨htally.queued, htally.count⟩

theorem OnlyRuntime.within {rqs' : Rqs n} (h : OnlyRuntime rqs rqs') (hw : Within b rqs) :
    Within b rqs' := by
  intro j
  rw [h.rtTime j]
  exact hw j

/-- A CPU may borrow in every state the operations leave. -/
theorem balanceRuntime_spec (h : Inv c rqs) (hw : Within b rqs) (hb : b < 2 ^ 63) {this : Fin n}
    (hthis : (rqs this).rt.rtRuntime ≠ runtimeInf) :
    Borrowed c this rqs (balanceRuntime c rqs this) ∧ Inv c (balanceRuntime c rqs this) := by
  have hbor := borrowed_balanceRuntime (h.rtRuntime_finite hthis) h.balanced (hw.timesFit hb) hthis
  refine ⟨hbor, ?_⟩
  cases hshare : c.rtRuntimeShare with
  | false =>
      have hsame : balanceRuntime c rqs this = rqs := by
        simp only [balanceRuntime, hshare, Bool.not_false, if_true]
      rw [hsame]
      exact h
  | true =>
      exact ⟨hbor.balanced h.balanced, fun j => hbor.only.due hshare (h.due j),
        fun j => hbor.only.tally (h.tally j)⟩

theorem Borrowed.lent {this : Fin n} {rqs' : Rqs n} (h : Borrowed c this rqs rqs') {j : Fin n}
    (hj : j ≠ this) : Lent (rqs j).rt (rqs' j).rt :=
  ⟨h.only.rtThrottled j, h.only.rtTime j, h.lender j hj⟩

/-- Throttling a CPU takes its tasks off the runqueue without reaching a `BUG_ON`. -/
theorem throttle_eq (h : Inv c rqs) (i : Fin n) :
    dequeueTopRtRq ((rqs.modifyRt i fun rt => { rt with rtThrottled := true }) i) =
      some { rqs i with
        nrRunning := (rqs i).otherNrRunning
        rt := { (rqs i).rt with rtQueued := false, rtThrottled := true } } := by
  rw [Rqs.modifyRt, Function.update_self]
  exact dequeueTopRtRq_eq (fun hq => ((h.tally i).queued.mp hq).2) (h.tally i).count

/--
What `sched_rt_runtime_exceeded` leaves.  The CPU has just accounted some time, so
its own pace is only known when it was throttled already.
-/
theorem schedRtRuntimeExceeded_spec (h : Inv c rqs) (hw : Within b rqs) (hb : b < 2 ^ 63)
    {this : Fin n} (hthis : (rqs this).rt.rtRuntime ≠ runtimeInf) :
    ∃ rqs' exceeded, schedRtRuntimeExceeded c rqs this = some (rqs', exceeded) ∧ Inv c rqs' ∧
      Within b rqs' ∧ (∀ j, j ≠ this → Lent (rqs j).rt (rqs' j).rt) ∧
      (((rqs this).rt.rtThrottled = true → (rqs this).rt.rtRuntime ≤ (rqs this).rt.rtTime) →
        Paced c (rqs' this).rt) := by
  rw [schedRtRuntimeExceeded]
  split
  · rename_i hthr
    refine ⟨rqs, true, rfl, h, hw, fun j _ => .refl (rqs j).rt, fun hself => ⟨hself, fun hrun => ?_⟩⟩
    rw [hrun] at hthr
    cases hthr
  · rename_i hthr
    split
    · rename_i hwhole
      exact ⟨rqs, false, rfl, h, hw, fun j _ => .refl (rqs j).rt,
        fun hself => ⟨hself, fun _ => .inr hwhole⟩⟩
    · obtain ⟨hbor, hinv⟩ := balanceRuntime_spec h hw hb hthis
      have hwithin := hbor.only.within hw
      have hlent : ∀ j, j ≠ this → Lent (rqs j).rt (balanceRuntime c rqs this j).rt :=
        fun j hj => hbor.lent hj
      have hfin : (balanceRuntime c rqs this this).rt.rtRuntime ≠ runtimeInf :=
        fun hinf => hthis ((hbor.only.inf_iff this).mp hinf)
      have hrun : (balanceRuntime c rqs this this).rt.rtThrottled = false := by
        rw [hbor.only.rtThrottled this]
        simpa using hthr
      simp only [if_neg hfin]
      generalize balanceRuntime c rqs this = rqs₁ at hinv hwithin hlent hfin hrun ⊢
      have hdue := hinv.due this
      have htally := hinv.tally this
      split
      · rename_i hover
        split
        · rw [throttle_eq hinv this]
          refine ⟨_, true, rfl, ?_⟩
          rw [Rqs.modifyRt, Function.update_idem]
          refine ⟨hinv.update rfl ⟨hdue.finite, hdue.exact, fun hinf => absurd hinf hfin⟩ ?_,
            forall_update (P := fun rq => rq.rt.rtTime ≤ b) hwithin (hwithin this), ?_, ?_⟩
          · exact ⟨⟨fun hq => absurd hq Bool.false_ne_true, fun hq => by cases hq.1⟩, rfl⟩
          · intro j hj
            rw [Function.update_of_ne hj]
            exact hlent j hj
          · intro _
            rw [Function.update_self]
            exact ⟨fun _ => Nat.le_of_lt hover, fun hq => by cases hq⟩
        · refine ⟨_, false, rfl, ?_⟩
          rw [Rqs.modifyRt]
          refine ⟨hinv.update rfl ⟨hdue.finite, hdue.exact, hdue.off⟩ ⟨htally.queued, htally.count⟩,
            forall_update (P := fun rq => rq.rt.rtTime ≤ b) hwithin (Nat.zero_le b), ?_, ?_⟩
          · intro j hj
            rw [Function.update_of_ne hj]
            exact hlent j hj
          · intro _
            rw [Function.update_self]
            refine ⟨fun hq => ?_, fun _ => .inl (Nat.zero_le _)⟩
            rw [hrun] at hq
            cases hq
      · rename_i hover
        refine ⟨rqs₁, false, rfl, hinv, hwithin, hlent, fun _ => ⟨fun hq => ?_, fun _ => ?_⟩⟩
        · rw [hrun] at hq
          cases hq
        · exact .inl (Nat.le_of_not_lt hover)

theorem updateCurrRt_keeps (h : Inv c rqs) (hw : Within b rqs) {deltaExec : Nat}
    (hb : b + deltaExec < 2 ^ 63) (this : Fin n) :
    ∃ rqs', updateCurrRt c rqs this deltaExec = some rqs' ∧
      Keeps c (b + deltaExec) this rqs rqs' := by
  have hmore : Within (b + deltaExec) rqs := fun j => (hw j).trans (Nat.le_add_right ..)
  rw [updateCurrRt]
  split
  · exact ⟨rqs, rfl, .refl h hmore this⟩
  · split
    · exact ⟨rqs, rfl, .refl h hmore this⟩
    · split
      · exact ⟨rqs, rfl, .refl h hmore this⟩
      · rename_i hfin
        have hthis := hw this
        have htime : u64 ((rqs this).rt.rtTime + deltaExec) = (rqs this).rt.rtTime + deltaExec := by
          have hval : (u64 ((rqs this).rt.rtTime + deltaExec) : Int) =
              (rqs this).rt.rtTime + deltaExec := u64_of_range (by omega) (by omega)
          exact_mod_cast hval
        have hdue := h.due this
        have htally := h.tally this
        rw [Rqs.modifyRt]
        simp only [htime]
        generalize hrqs₁ : Function.update rqs this
          { rqs this with
            rt := { (rqs this).rt with rtTime := (rqs this).rt.rtTime + deltaExec } } = rqs₁
        have hself : rqs₁ this =
            { rqs this with
              rt := { (rqs this).rt with rtTime := (rqs this).rt.rtTime + deltaExec } } := by
          rw [← hrqs₁, Function.update_self]
        have hinv₁ : Inv c rqs₁ := by
          rw [← hrqs₁]
          exact h.update rfl ⟨hdue.finite, hdue.exact, hdue.off⟩ ⟨htally.queued, htally.count⟩
        have hwithin₁ : Within (b + deltaExec) rqs₁ := by
          rw [← hrqs₁]
          exact forall_update (P := fun rq => rq.rt.rtTime ≤ b + deltaExec) hmore
            (Nat.add_le_add_right hthis _)
        have hfin₁ : (rqs₁ this).rt.rtRuntime ≠ runtimeInf := by
          rw [hself]
          exact hfin
        obtain ⟨rqs₂, exceeded, heq, hinv₂, hwithin₂, hlent₂, hpaced₂⟩ :=
          schedRtRuntimeExceeded_spec hinv₁ hwithin₁ hb hfin₁
        rw [heq]
        have hkeeps₂ : Keeps c (b + deltaExec) this rqs rqs₂ := by
          refine ⟨hinv₂, hwithin₂, fun j hj => ?_, fun hp => hpaced₂ fun hthr => ?_⟩
          · have hlent := hlent₂ j hj
            rw [← hrqs₁, Function.update_of_ne hj] at hlent
            exact hlent
          · rw [hself] at hthr ⊢
            exact (hp.1 hthr).trans (Nat.le_add_right ..)
        cases exceeded with
        | false => exact ⟨rqs₂, rfl, hkeeps₂⟩
        | true =>
            have hdue₂ := hinv₂.due this
            have htally₂ := hinv₂.tally this
            refine ⟨Function.update rqs₂ this (rqs₂ this).reschedCurr, rfl, ?_, ?_, fun j hj => ?_,
              fun hp => ?_⟩
            · exact hinv₂.update rfl ⟨hdue₂.finite, hdue₂.exact, hdue₂.off⟩
                ⟨htally₂.queued, htally₂.count⟩
            · exact forall_update (P := fun rq => rq.rt.rtTime ≤ b + deltaExec) hwithin₂
                (hwithin₂ this)
            · rw [Function.update_of_ne hj]
              exact hkeeps₂.others j hj
            · rw [Function.update_self]
              exact hkeeps₂.self hp

/-! ### The period timer -/

/-- Where CPUs may not borrow, the period timer sets a runtime that is set already. -/
theorem reset_eq (h : Inv c rqs) (i : Fin n) :
    (if !c.rtRuntimeShare && decide ((rqs i).rt.rtRuntime ≠ runtimeInf) then
      rqs.setRuntime i c.rtRuntime else rqs) = rqs := by
  split
  · rename_i hreset
    simp only [Bool.and_eq_true, Bool.not_eq_true', decide_eq_true_eq] at hreset
    have hex := (h.due i).exact hreset.1
    rw [excess_of_finite hreset.2] at hex
    have hsame : c.rtRuntime = (rqs i).rt.rtRuntime := by omega
    rw [Rqs.setRuntime, Rqs.modifyRt, hsame]
    exact Function.update_eq_self i rqs
  · rfl

theorem replenished_le (overrun runtime rtTime : Nat) :
    replenished overrun runtime rtTime ≤ rtTime := Nat.sub_le ..

/--
The time of a CPU is taken down and the CPU released when that brings it below its
runtime.  A throttled CPU may have borrowed just before, so its pace is not assumed.
-/
theorem replenish_keeps {rqs₁ : Rqs n} {i : Fin n} (h : Inv c rqs₁) (hw : Within b rqs₁)
    (overrun : Nat) (hlent : ∀ j, j ≠ i → Lent (rqs j).rt (rqs₁ j).rt)
    (hpaced : Paced c (rqs i).rt → (rqs₁ i).rt.rtThrottled = false → Paced c (rqs₁ i).rt) :
    Keeps c b i rqs
      (let runtime := (rqs₁ i).rt.rtRuntime
        let rqs₂ := rqs₁.modifyRt i fun rt =>
          { rt with rtTime := replenished overrun runtime rt.rtTime }
        if (rqs₂ i).rt.rtThrottled ∧ (rqs₂ i).rt.rtTime < runtime then
          let rqs₃ := rqs₂.modifyRt i fun rt => { rt with rtThrottled := false }
          Function.update rqs₃ i (schedRtRqEnqueue (rqs₃ i))
        else rqs₂) := by
  have hdue := h.due i
  have htally := h.tally i
  have hless := replenished_le overrun (rqs₁ i).rt.rtRuntime (rqs₁ i).rt.rtTime
  have hbound := hw i
  simp only [Rqs.modifyRt, Function.update_self, Function.update_idem]
  generalize replenished overrun (rqs₁ i).rt.rtRuntime (rqs₁ i).rt.rtTime = left at hless
  split
  · rename_i hrelease
    obtain ⟨hthr, hbelow⟩ := hrelease
    have hreq := requeued_schedRtRqEnqueue
      { rqs₁ i with rt := { (rqs₁ i).rt with rtTime := left, rtThrottled := false } }
    have hnotQueued : (rqs₁ i).rt.rtQueued = false := by
      cases hq : (rqs₁ i).rt.rtQueued with
      | false => rfl
      | true =>
          have hrun := (htally.queued.mp hq).1
          rw [hthr] at hrun
          cases hrun
    refine ⟨h.update ?_ (hreq.due ⟨hdue.finite, hdue.exact, fun _ => rfl⟩) ?_, ?_,
      fun j hj => ?_, fun _ => ?_⟩
    · rw [hreq.excess_eq]
      rfl
    · refine tally_schedRtRqEnqueue ⟨fun hq => ?_, htally.count⟩
      rw [hnotQueued] at hq
      cases hq
    · refine forall_update (P := fun rq => rq.rt.rtTime ≤ b) hw ?_
      rw [hreq.rtTime]
      exact hless.trans hbound
    · rw [Function.update_of_ne hj]
      exact hlent j hj
    · rw [Function.update_self]
      exact hreq.paced ⟨fun hq => absurd hq Bool.false_ne_true, fun _ => .inl (Nat.le_of_lt hbelow)⟩
  · rename_i hrelease
    refine ⟨h.update rfl ⟨hdue.finite, hdue.exact, hdue.off⟩ ⟨htally.queued, htally.count⟩,
      forall_update (P := fun rq => rq.rt.rtTime ≤ b) hw (hless.trans hbound),
      fun j hj => ?_, fun hp => ?_⟩
    · rw [Function.update_of_ne hj]
      exact hlent j hj
    · rw [Function.update_self]
      refine ⟨fun hthr => ?_, fun hrun => ?_⟩
      · exact Nat.le_of_not_lt fun hbelow => hrelease ⟨hthr, hbelow⟩
      · have hbefore := (hpaced hp hrun).2 hrun
        simp only
        omega

theorem rtRuntime_finite_of_throttled (h : Inv c rqs) {i : Fin n}
    (hthr : (rqs i).rt.rtThrottled = true) : (rqs i).rt.rtRuntime ≠ runtimeInf := by
  intro hinf
  have hrun := (h.due i).off hinf
  rw [hthr] at hrun
  cases hrun

theorem schedRtPeriodVisit_keeps (h : Inv c rqs) (hw : Within b rqs) (hb : b < 2 ^ 63) (i : Fin n)
    (overrun : Nat) : Keeps c b i rqs (schedRtPeriodVisit c rqs i overrun) := by
  rw [schedRtPeriodVisit, reset_eq h i]
  simp only
  split
  · exact .refl h hw i
  · split
    · cases hthr : (rqs i).rt.rtThrottled with
      | false =>
          simp only [Bool.false_eq_true, if_false]
          exact replenish_keeps h hw overrun (fun j _ => .refl (rqs j).rt) fun hp _ => hp
      | true =>
          obtain ⟨hbor, hinv⟩ := balanceRuntime_spec h hw hb (rtRuntime_finite_of_throttled h hthr)
          simp only [if_true]
          refine replenish_keeps hinv (hbor.only.within hw) overrun (fun j hj => hbor.lent hj)
            fun _ hrun => ?_
          rw [hbor.only.rtThrottled i, hthr] at hrun
          cases hrun
    · split
      · exact .refl h hw i
      · have hreq := requeued_schedRtRqEnqueue (rqs i)
        refine Keeps.update h hw hreq.excess_eq (hreq.due (h.due i)) ?_ ?_ fun hp => hreq.paced hp
        · exact tally_schedRtRqEnqueue (h.tally i).pending
        · rw [hreq.rtTime]
          exact hw i

/-! ### A CPU comes and goes -/

theorem setRqOnline_keeps (h : Inv c rqs) (hw : Within b rqs) (i : Fin n) :
    Keeps c b i rqs (setRqOnline c rqs i) := by
  rw [setRqOnline]
  split
  · exact .refl h hw i
  · rename_i hoff
    have hdue := h.due i
    have htally := h.tally i
    have hinf : (rqs i).rt.rtRuntime = runtimeInf := by
      by_contra hfin
      exact hoff (hdue.finite.mp hfin).1
    have hex : excess c { (rqs i).rt with
        rtRuntime := c.rtRuntime, rtTime := 0, rtThrottled := false } = 0 := by
      rw [excess]
      split
      · rfl
      · exact Int.sub_self _
    simp only [enableRuntime, Rqs.modifyRt, Function.update_self, Function.update_idem]
    refine Keeps.update h hw ?_ ⟨?_, fun _ => hex, fun _ => rfl⟩ ⟨?_, htally.count⟩ (Nat.zero_le b) ?_
    · rw [excess_of_inf hinf]
      exact hex
    · simp only [true_and]
    · rw [htally.queued, hdue.off hinf]
    · intro _
      exact ⟨fun hq => absurd hq Bool.false_ne_true, fun _ => .inl (Nat.zero_le _)⟩

/-- The runqueue of a CPU that has just gone offline. -/
def offlined (rq : Rq) : Rq :=
  { schedRtRqEnqueue
      { rq with rt := { rq.rt with rtRuntime := runtimeInf, rtThrottled := false } } with
    online := false }

theorem disableBalanced_offline (rqs : Rqs n) (i : Fin n) :
    Function.update (disableBalanced rqs i) i { disableBalanced rqs i i with online := false } =
      Function.update rqs i (offlined (rqs i)) := by
  simp only [disableBalanced, Rqs.modifyRt, Function.update_self, Function.update_idem, offlined]

theorem offlined_spec (c : Config n) {rq : Rq} (h : Tally rq) :
    excess c (offlined rq).rt = 0 ∧ Due c (offlined rq) ∧ Tally (offlined rq) ∧
      (offlined rq).rt.rtTime = rq.rt.rtTime := by
  have hpending : Pending
      { rq with rt := { rq.rt with rtRuntime := runtimeInf, rtThrottled := false } } :=
    ⟨fun hq => ⟨rfl, (h.queued.mp hq).2⟩, h.count⟩
  have htally := tally_schedRtRqEnqueue hpending
  obtain ⟨k, q, b, heq⟩ := requeued_schedRtRqEnqueue
    { rq with rt := { rq.rt with rtRuntime := runtimeInf, rtThrottled := false } }
  have hinf : (offlined rq).rt.rtRuntime = runtimeInf := by rw [offlined, heq]
  have hex : excess c (offlined rq).rt = 0 := excess_of_inf hinf
  refine ⟨hex, ⟨?_, fun _ => hex, fun _ => ?_⟩, ⟨htally.queued, htally.count⟩, ?_⟩
  · rw [hinf]
    simp only [ne_eq, not_true_eq_false, offlined, Bool.false_eq_true, false_and]
  · rw [offlined, heq]
  · rw [offlined, heq]

/-- A CPU goes offline while the others hold their due together. -/
theorem offlined_inv {rqs' : Rqs n} {i : Fin n} (htally : Tally (rqs' i))
    (hsum : ∑ j, excesses c rqs' j = excesses c rqs' i) (hw : Within b rqs')
    (hothers : ∀ j, j ≠ i → Due c (rqs' j) ∧ Tally (rqs' j)) :
    Inv c (Function.update rqs' i (offlined (rqs' i))) ∧
      Within b (Function.update rqs' i (offlined (rqs' i))) := by
  obtain ⟨hex, hdue, htally', htime⟩ := offlined_spec c htally
  have heach : ∀ j, Due c (Function.update rqs' i (offlined (rqs' i)) j) ∧
      Tally (Function.update rqs' i (offlined (rqs' i)) j) := by
    intro j
    by_cases hj : j = i
    · subst hj
      rw [Function.update_self]
      exact ⟨hdue, htally'⟩
    · rw [Function.update_of_ne hj]
      exact hothers j hj
  refine ⟨⟨?_, fun j => (heach j).1, fun j => (heach j).2⟩, ?_⟩
  · rw [Shares.Balanced, excesses_update, Shares.sum_update, hsum, hex]
    omega
  · refine forall_update (P := fun rq => rq.rt.rtTime ≤ b) hw ?_
    rw [htime]
    exact hw i

/-- **A CPU can always go offline**: it is never left wanting runtime. -/
theorem setRqOffline_keeps (h : Inv c rqs) (hw : Within b rqs) (i : Fin n) :
    ∃ rqs', setRqOffline c rqs i = some rqs' ∧ Inv c rqs' ∧ Within b rqs' := by
  have hzero : ∑ j, excesses c rqs j = 0 := h.balanced
  rw [setRqOffline]
  split
  · rw [disableRuntime]
    split
    · rename_i hbal
      refine ⟨_, congrArg some (disableBalanced_offline rqs i),
        offlined_inv (h.tally i) ?_ hw fun j _ => ⟨h.due j, h.tally j⟩⟩
      rw [hzero, excesses, excess]
      split <;> omega
    · rename_i hbal
      obtain ⟨hfin, hne⟩ := not_or.mp hbal
      have hR := h.rtRuntime_finite hfin
      have hlt := rtRuntime_lt h.balanced hR hfin
      have hperiod := c.rtPeriod_lt i
      have hle := c.rtRuntime_cases.resolve_left hR
      have hself : excesses c rqs i = (rqs i).rt.rtRuntime - c.rtRuntime := excess_of_finite hfin
      have hshare : c.rtRuntimeShare = true := by
        cases hshare : c.rtRuntimeShare with
        | true => rfl
        | false =>
            have hdue := (h.due i).exact hshare
            rw [excess_of_finite hfin] at hdue
            omega
      have hwant : s64 (c.rtRuntime - (rqs i).rt.rtRuntime : Int) =
          c.rtRuntime - (rqs i).rt.rtRuntime := s64_of_range (by omega) (by omega)
      have hsum : ∑ j, excesses c rqs j =
          (c.rtRuntime - (rqs i).rt.rtRuntime : Int) + excesses c rqs i := by omega
      obtain ⟨rqs', heq, honly, hthis, hrest⟩ :=
        reclaimLoop_spec (List.finRange n) rqs (c.rtRuntime - (rqs i).rt.rtRuntime : Int) (by omega)
          (by omega) (fun j hj => rtRuntime_lt h.balanced hR hj) hsum
          fun j _ hnot => absurd (List.mem_finRange j) hnot
      simp only [hwant, heq, ne_eq, not_true_eq_false, if_false]
      refine ⟨_, congrArg some (disableBalanced_offline rqs' i),
        offlined_inv (honly.tally (h.tally i)) hrest (honly.within hw) fun j _ => ?_⟩
      exact ⟨honly.due hshare (h.due j), honly.tally (h.tally j)⟩
  · exact ⟨rqs, rfl, h, hw⟩

/-! ### Whole runs -/

/-- The time an operation accounts. -/
def Op.accounted : Op n → Nat
  | .updateCurrRt _ deltaExec => deltaExec
  | _ => 0

/-- The time a run accounts on all CPUs together. -/
def accounted (ops : List (Op n)) : Nat := (ops.map Op.accounted).sum

def Op.isOffline : Op n → Bool
  | .setRqOffline _ => true
  | _ => false

def Op.cpu : Op n → Fin n
  | .enqueueRt cpu | .dequeueRt cpu | .addOther cpu | .subOther cpu | .updateCurrRt cpu _
  | .periodVisit cpu _ | .setRqOnline cpu | .setRqOffline cpu => cpu

/-- **No operation reaches a `BUG_ON`**, and each keeps the invariant. -/
theorem step_keeps (h : Inv c rqs) (hw : Within b rqs) (op : Op n)
    (hb : b + op.accounted < 2 ^ 63) :
    ∃ rqs', step c rqs op = some rqs' ∧ Inv c rqs' ∧ Within (b + op.accounted) rqs' ∧
      (op.isOffline = false → Keeps c (b + op.accounted) op.cpu rqs rqs') := by
  cases op with
  | enqueueRt cpu =>
      obtain ⟨rq, heq, hkeeps⟩ := enqueueRtEntity_keeps h hw cpu
      exact ⟨_, by rw [step, heq]; rfl, hkeeps.inv, hkeeps.within, fun _ => hkeeps⟩
  | dequeueRt cpu =>
      obtain ⟨rq, heq, hkeeps⟩ := dequeueRtEntity_keeps h hw cpu
      exact ⟨_, by rw [step, heq]; rfl, hkeeps.inv, hkeeps.within, fun _ => hkeeps⟩
  | addOther cpu =>
      have hkeeps := addOther_keeps h hw cpu
      exact ⟨_, rfl, hkeeps.inv, hkeeps.within, fun _ => hkeeps⟩
  | subOther cpu =>
      have hkeeps := subOther_keeps h hw cpu
      exact ⟨_, rfl, hkeeps.inv, hkeeps.within, fun _ => hkeeps⟩
  | updateCurrRt cpu deltaExec =>
      obtain ⟨rqs', heq, hkeeps⟩ := updateCurrRt_keeps h hw hb cpu
      exact ⟨rqs', heq, hkeeps.inv, hkeeps.within, fun _ => hkeeps⟩
  | periodVisit cpu overrun =>
      have hkeeps := schedRtPeriodVisit_keeps h hw hb cpu overrun
      exact ⟨_, rfl, hkeeps.inv, hkeeps.within, fun _ => hkeeps⟩
  | setRqOnline cpu =>
      have hkeeps := setRqOnline_keeps h hw cpu
      exact ⟨_, rfl, hkeeps.inv, hkeeps.within, fun _ => hkeeps⟩
  | setRqOffline cpu =>
      obtain ⟨rqs', heq, hinv, hwithin⟩ := setRqOffline_keeps h hw cpu
      exact ⟨rqs', heq, hinv, hwithin, fun hon => by cases hon⟩

theorem run_keeps : ∀ (ops : List (Op n)) (rqs : Rqs n) (b : Nat), Inv c rqs → Within b rqs →
    b + accounted ops < 2 ^ 63 →
    ∃ rqs', run c rqs ops = some rqs' ∧ Inv c rqs' ∧ Within (b + accounted ops) rqs' ∧
      ((∀ op ∈ ops, op.isOffline = false) → (∀ j, Paced c (rqs j).rt) →
        ∀ j, Paced c (rqs' j).rt) := by
  intro ops
  induction ops with
  | nil =>
      intro rqs b h hw _
      exact ⟨rqs, rfl, h, hw, fun _ hp => hp⟩
  | cons op rest ih =>
      intro rqs b h hw hb
      have hsplit : accounted (op :: rest) = op.accounted + accounted rest := by
        simp only [accounted, List.map_cons, List.sum_cons]
      rw [hsplit, ← Nat.add_assoc] at hb ⊢
      obtain ⟨rqs₁, hfirst, hinv₁, hwithin₁, hkeeps₁⟩ := step_keeps h hw op (by omega)
      obtain ⟨rqs', hrest, hinv, hwithin, hpaced⟩ := ih rqs₁ _ hinv₁ hwithin₁ hb
      refine ⟨rqs', ?_, hinv, hwithin, fun hon hp => ?_⟩
      · rw [run, Runs.run, hfirst]
        exact hrest
      · exact hpaced (fun a ha => hon a (List.mem_cons_of_mem op ha))
          ((hkeeps₁ (hon op List.mem_cons_self)).paced hp)

theorem bootRqs_excess (c : Config n) (i : Fin n) : excess c (bootRqs c i).rt = 0 := by
  by_cases hinf : c.rtRuntime = runtimeInf
  · exact excess_of_inf hinf
  · exact (excess_of_finite hinf).trans (Int.sub_self _)

theorem bootRqs_inv (c : Config n) : Inv c (bootRqs c) where
  balanced := Finset.sum_eq_zero fun j _ => bootRqs_excess c j
  due j := ⟨by simp only [bootRqs, true_and], fun _ => bootRqs_excess c j, fun _ => rfl⟩
  tally j := ⟨by simp [bootRqs], by simp [bootRqs]⟩

theorem bootRqs_within (c : Config n) : Within 0 (bootRqs c) := fun _ => Nat.le_refl 0

theorem bootRqs_paced (c : Config n) (i : Fin n) : Paced c (bootRqs c i).rt :=
  ⟨fun h => absurd h Bool.false_ne_true, fun _ => .inl (Nat.zero_le _)⟩

/-! ### The bandwidth of the domain -/

/-- The CPUs that are online. -/
def onlineCpus (rqs : Rqs n) : Finset (Fin n) := Finset.univ.filter fun i => (rqs i).online = true

theorem excess_of_online (h : Inv c rqs) {i : Fin n} (hon : (rqs i).online = true) :
    ((rqs i).rt.rtRuntime : Int) = c.rtRuntime + excess c (rqs i).rt := by
  by_cases hfin : (rqs i).rt.rtRuntime = runtimeInf
  · have hinf : c.rtRuntime = runtimeInf := by
      by_contra hR
      exact (h.due i).finite.mpr ⟨hon, hR⟩ hfin
    rw [excess_of_inf hfin, hfin, hinf]
    omega
  · rw [excess_of_finite hfin]
    omega

theorem excess_of_offline (h : Inv c rqs) {i : Fin n} (hoff : (rqs i).online ≠ true) :
    excess c (rqs i).rt = 0 := by
  apply excess_of_inf
  by_contra hfin
  exact hoff ((h.due i).finite.mp hfin).1

/-- The CPUs that are online hold what they are due together. -/
theorem sum_rtRuntime (h : Inv c rqs) :
    ∑ i ∈ onlineCpus rqs, (rqs i).rt.rtRuntime = (onlineCpus rqs).card * c.rtRuntime := by
  have hall : ∑ i ∈ onlineCpus rqs, excess c (rqs i).rt = 0 := by
    have hbal : ∑ i, excess c (rqs i).rt = 0 := h.balanced
    rw [← hbal]
    refine Finset.sum_subset (Finset.subset_univ _) fun i _ hi => ?_
    apply excess_of_offline h
    intro hon
    exact hi (Finset.mem_filter.mpr ⟨Finset.mem_univ i, hon⟩)
  have hint : (∑ i ∈ onlineCpus rqs, (rqs i).rt.rtRuntime : Int) =
      (onlineCpus rqs).card * c.rtRuntime := by
    calc (∑ i ∈ onlineCpus rqs, (rqs i).rt.rtRuntime : Int)
        = ∑ i ∈ onlineCpus rqs, ((c.rtRuntime : Int) + excess c (rqs i).rt) :=
          Finset.sum_congr rfl fun i hi => excess_of_online h (Finset.mem_filter.mp hi).2
      _ = (onlineCpus rqs).card * c.rtRuntime := by
          rw [Finset.sum_add_distrib, hall, Finset.sum_const, nsmul_eq_mul, add_zero]
  exact_mod_cast hint

/--
**No runtime leaks.**  Whatever the CPUs of a domain do after boot, in whatever
order, no `BUG_ON` fires; and at every point the CPUs that are online hold together
exactly the runtime they are due.  The time accounted in a run stays below `2 ^ 63`
nanoseconds, which is some 292 years.
-/
theorem no_runtime_leaks (c : Config n) (ops : List (Op n)) (hclock : accounted ops < 2 ^ 63) :
    ∃ rqs, run c (bootRqs c) ops = some rqs ∧
      (∀ i, (rqs i).rt.rtRuntime = runtimeInf ↔
        (rqs i).online = false ∨ c.rtRuntime = runtimeInf) ∧
      ∑ i ∈ onlineCpus rqs, (rqs i).rt.rtRuntime = (onlineCpus rqs).card * c.rtRuntime := by
  obtain ⟨rqs, hrun, hinv, -, -⟩ :=
    run_keeps ops (bootRqs c) 0 (bootRqs_inv c) (bootRqs_within c) (by omega)
  refine ⟨rqs, hrun, fun i => ?_, sum_rtRuntime hinv⟩
  rw [← not_iff_not, not_or, Bool.not_eq_false]
  exact (hinv.due i).finite

/-- Two CPUs with the default settings: 0.95 s out of every second. -/
def twoCpus : Config 2 where
  sysctlSchedRtPeriod := 1000000
  sysctlSchedRtRuntime := 950000
  rtRuntimeShare := true
  int := by decide
  unsigned := by decide
  valid := by decide
  fits := by decide

/-- CPU 0 borrows up to a whole period; CPU 1 gets some of it back and is throttled. -/
def lendOps : List (Op 2) :=
  [.enqueueRt 0, .enqueueRt 1, .updateCurrRt 0 960000000, .updateCurrRt 1 930000000]

/-- Two visits of the period timer to CPU 1 while CPU 0 runs on. -/
def releaseOps : List (Op 2) :=
  [.periodVisit 1 1, .updateCurrRt 0 10000000, .periodVisit 1 1]

theorem no_runtime_leaks_twoCpus :
    accounted (lendOps ++ [.setRqOffline 0]) < 2 ^ 63 ∧
      ∃ rqs, run twoCpus (bootRqs twoCpus) (lendOps ++ [.setRqOffline 0]) = some rqs ∧
        (∀ i, (rqs i).rt.rtRuntime = runtimeInf ↔
          (rqs i).online = false ∨ twoCpus.rtRuntime = runtimeInf) ∧
        ∑ i ∈ onlineCpus rqs, (rqs i).rt.rtRuntime =
          (onlineCpus rqs).card * twoCpus.rtRuntime :=
  ⟨by decide, no_runtime_leaks twoCpus _ (by decide)⟩

/--
**Throttled tasks are off the runqueue, and no others.**  At every point of every run
the real-time tasks of a CPU are counted in `nr_running` exactly while there are some
and the CPU is not throttled; the other classes' tasks always are.
-/
theorem queued_iff_not_throttled (c : Config n) (ops : List (Op n))
    (hclock : accounted ops < 2 ^ 63) :
    ∃ rqs, run c (bootRqs c) ops = some rqs ∧
      ∀ i, ((rqs i).rt.rtQueued = true ↔
          (rqs i).rt.rtThrottled = false ∧ (rqs i).rt.rtNrRunning ≠ 0) ∧
        (rqs i).nrRunning = (rqs i).otherNrRunning +
          (if (rqs i).rt.rtThrottled then 0 else (rqs i).rt.rtNrRunning) ∧
        ((rqs i).online = false → (rqs i).rt.rtThrottled = false) := by
  obtain ⟨rqs, hrun, hinv, -, -⟩ :=
    run_keeps ops (bootRqs c) 0 (bootRqs_inv c) (bootRqs_within c) (by omega)
  refine ⟨rqs, hrun, fun i => ⟨(hinv.tally i).queued, ?_, fun hoff => ?_⟩⟩
  · have hqueued := (hinv.tally i).queued
    rw [(hinv.tally i).count]
    cases hthr : (rqs i).rt.rtThrottled with
    | true => simp_all
    | false =>
        by_cases hnr : (rqs i).rt.rtNrRunning = 0
        · simp [hnr]
        · have hq : (rqs i).rt.rtQueued = true := hqueued.mpr ⟨hthr, hnr⟩
          rw [hq]
          simp
  · apply (hinv.due i).off
    by_contra hfin
    have hon := ((hinv.due i).finite.mp hfin).1
    rw [hoff] at hon
    cases hon

theorem queued_iff_not_throttled_twoCpus :
    (run twoCpus (bootRqs twoCpus) lendOps).any (fun rqs => (rqs 1).rt.rtThrottled) = true ∧
      ∃ rqs, run twoCpus (bootRqs twoCpus) lendOps = some rqs ∧
        ∀ i, ((rqs i).rt.rtQueued = true ↔
            (rqs i).rt.rtThrottled = false ∧ (rqs i).rt.rtNrRunning ≠ 0) ∧
          (rqs i).nrRunning = (rqs i).otherNrRunning +
            (if (rqs i).rt.rtThrottled then 0 else (rqs i).rt.rtNrRunning) ∧
          ((rqs i).online = false → (rqs i).rt.rtThrottled = false) :=
  ⟨by decide +kernel, queued_iff_not_throttled twoCpus lendOps (by decide)⟩

/-- The CPUs that still hold back: neither throttled nor granted a whole period. -/
def pacedCpus (c : Config n) (rqs : Rqs n) : Finset (Fin n) :=
  Finset.univ.filter fun i => (rqs i).rt.rtThrottled = false ∧ (rqs i).rt.rtRuntime < c.rtPeriod

theorem sum_paced_le (h : Inv c rqs) (hp : ∀ i, Paced c (rqs i).rt) :
    ∑ i ∈ pacedCpus c rqs, (rqs i).rt.rtTime ≤ n * c.rtRuntime := by
  have hsub : pacedCpus c rqs ⊆ onlineCpus rqs := by
    intro i hi
    obtain ⟨-, -, hlt⟩ := Finset.mem_filter.mp hi
    have hperiod := c.rtPeriod_lt i
    have hinf := runtimeInf_val
    exact Finset.mem_filter.mpr ⟨Finset.mem_univ i, ((h.due i).finite.mp (by omega)).1⟩
  calc ∑ i ∈ pacedCpus c rqs, (rqs i).rt.rtTime
      ≤ ∑ i ∈ pacedCpus c rqs, (rqs i).rt.rtRuntime := by
        refine Finset.sum_le_sum fun i hi => ?_
        obtain ⟨-, hrun, hlt⟩ := Finset.mem_filter.mp hi
        have hpace := (hp i).2 hrun
        omega
    _ ≤ ∑ i ∈ onlineCpus rqs, (rqs i).rt.rtRuntime := Finset.sum_le_sum_of_subset hsub
    _ = (onlineCpus rqs).card * c.rtRuntime := sum_rtRuntime h
    _ ≤ n * c.rtRuntime := by
        apply Nat.mul_le_mul_right
        exact (Finset.card_le_univ _).trans (Fintype.card_fin n).le

/--
**The bandwidth holds across CPUs.**  While no CPU goes offline, a throttled CPU has
used up its runtime, one that is not throttled is within its runtime unless it has
borrowed up to a whole period, and the CPUs of the second kind have together used no
more than all CPUs are due.
-/
theorem bandwidth_kept (c : Config n) (ops : List (Op n)) (hclock : accounted ops < 2 ^ 63)
    (hon : ∀ op ∈ ops, op.isOffline = false) :
    ∃ rqs, run c (bootRqs c) ops = some rqs ∧
      (∀ i, (rqs i).rt.rtThrottled = true → (rqs i).rt.rtRuntime ≤ (rqs i).rt.rtTime) ∧
      (∀ i, (rqs i).rt.rtThrottled = false →
        (rqs i).rt.rtTime ≤ (rqs i).rt.rtRuntime ∨ c.rtPeriod ≤ (rqs i).rt.rtRuntime) ∧
      ∑ i ∈ pacedCpus c rqs, (rqs i).rt.rtTime ≤ n * c.rtRuntime := by
  obtain ⟨rqs, hrun, hinv, -, hpaced⟩ :=
    run_keeps ops (bootRqs c) 0 (bootRqs_inv c) (bootRqs_within c) (by omega)
  have hp := hpaced hon (bootRqs_paced c)
  exact ⟨rqs, hrun, fun i => (hp i).1, fun i => (hp i).2, sum_paced_le hinv hp⟩

theorem bandwidth_kept_twoCpus :
    (∀ op ∈ lendOps, op.isOffline = false) ∧
      ∃ rqs, run twoCpus (bootRqs twoCpus) lendOps = some rqs ∧
        (∀ i, (rqs i).rt.rtThrottled = true → (rqs i).rt.rtRuntime ≤ (rqs i).rt.rtTime) ∧
        (∀ i, (rqs i).rt.rtThrottled = false →
          (rqs i).rt.rtTime ≤ (rqs i).rt.rtRuntime ∨ twoCpus.rtPeriod ≤ (rqs i).rt.rtRuntime) ∧
        ∑ i ∈ pacedCpus twoCpus rqs, (rqs i).rt.rtTime ≤ 2 * twoCpus.rtRuntime :=
  ⟨by decide, bandwidth_kept twoCpus lendOps (by decide) (by decide)⟩

end Bandwidth
