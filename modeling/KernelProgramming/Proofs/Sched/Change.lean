/-
The four operations that change how a task is scheduled keep the invariant.

`putBack_inv` is the argument they share: take the task off its queue, rewrite it,
put it back.  What is left for each of them is that the task it writes is in range
and that its enqueue finds what its dequeue left behind.
-/
import KernelProgramming.Proofs.Sched.Invariant

namespace Sched

variable {X : Type} {other : OtherClasses X} {s : Sys X} {p : TaskId}

/-- Take a task off its queue, rewrite it, put it back. -/
theorem putBack_inv (h : Inv s) {f : TaskStruct → TaskStruct} {flags : QueueFlags}
    (flags' : QueueFlags) {u : Sys X} (hu : Quiet ((takeOff other s p flags).modify p f) u)
    (hok : TaskOK (f ((takeOff other s p flags).task p)))
    (hrt : (f ((takeOff other s p flags).task p)).rt.onRq
      = ((takeOff other s p flags).task p).rt.onRq)
    (hstate : (f ((takeOff other s p flags).task p)).state
      = ((takeOff other s p flags).task p).state)
    (honRq : (f ((takeOff other s p flags).task p)).onRq
      = ((takeOff other s p flags).task p).onRq)
    (hsaved : savedBy (s.task p) p flags = savedBy (u.task p) p flags')
    (hcls : (u.task p).schedClass = (s.task p).schedClass ∨
      ((u.task p).schedClass ≠ .stop ∧ (u.task p).schedClass ≠ .idle)) :
    Inv (enqueueIf other u p (s.task p).onRq flags') := by
  have hown := enqueueIf_owns other u p (s.task p).onRq flags'
  have hkeeps : Keeps p s u :=
    ((takeOff_owns other s p flags).keeps.trans (modify_keeps _ p hstate honRq)).trans (hu.keeps p)
  refine h.of_keeps (hkeeps.trans hown.keeps) ?_ (by rw [hown.self.schedClass]; exact hcls)
  have hl := ((takeOff_linked other h.linked rfl flags).rewrite hok hrt).of_quiet hu
  rw [hsaved] at hl
  exact enqueueIf_linked rfl hl

/-- A field that no queue depends on may be rewritten without taking the task off. -/
theorem Inv.modify_same (h : Inv s) {f : TaskStruct → TaskStruct} (hok : TaskOK (f (s.task p)))
    (hstate : (f (s.task p)).state = (s.task p).state)
    (honRq : (f (s.task p)).onRq = (s.task p).onRq)
    (hcls : (f (s.task p)).schedClass = (s.task p).schedClass)
    (hrt : (f (s.task p)).rt = (s.task p).rt) : Inv (s.modify p f) := by
  refine h.of_keeps (modify_keeps s p hstate honRq) (h.linked.modify_same hok hcls hrt) ?_
  rw [s.modify_task_self]
  exact Or.inl hcls

/-- The donor and the reset flag are in no invariant. -/
theorem Inv.setDonor (h : Inv s) (piTask : Option TaskId) :
    Inv (s.modify p fun t => { t with piTopTask := piTask }) := by
  have hok := h.linked.tasks p
  refine h.modify_same ?_ rfl rfl rfl rfl
  exact ⟨hok.static, hok.rtPriority, hok.normal, hok.prio, hok.slice, hok.cls, hok.tsPolicy,
    hok.dlPolicy⟩

theorem Inv.setResetOnFork (h : Inv s) (resetFork : Bool) :
    Inv (s.modify p fun t => { t with schedResetOnFork := resetFork }) := by
  have hok := h.linked.tasks p
  refine h.modify_same ?_ rfl rfl rfl rfl
  exact ⟨hok.static, hok.rtPriority, hok.normal, hok.prio, hok.slice, hok.cls, hok.tsPolicy,
    hok.dlPolicy⟩

variable (other) in
theorem takeOff_taskOK (h : Inv s) (flags : QueueFlags) :
    TaskOK ((takeOff other s p flags).task p) := by
  have hp := takeOff_prio other s p flags p
  exact (h.linked.tasks p).of_sameTask (takeOff_owns other s p flags).self hp.1 hp.2

variable (other) in
/-- What `set_user_nice` does: nothing, one write, or two writes to a task that is off its
queue, with the hook of the fair class in between. -/
theorem setUserNice_cases (s : Sys X) (p : TaskId) (nice : Int) :
    ((taskNice (s.task p) = nice ∨ nice < -20 ∨ nice > 19) ∧ setUserNice other s p nice = s) ∨
      ((taskNice (s.task p) ≠ nice ∧ -20 ≤ nice ∧ nice ≤ 19) ∧
        (((s.task p).policy.dlPolicy = true ∨ (s.task p).policy.rtPolicy = true) ∧
            setUserNice other s p nice
              = s.modify p (fun t => { t with staticPrio := niceToPrio nice }) ∨
          (s.task p).policy.dlPolicy = false ∧ (s.task p).policy.rtPolicy = false ∧
            ∃ u, Quiet ((takeOff other s p { restore := true, noclock := true }).modify p fun t =>
                effectivePrio { t with staticPrio := niceToPrio nice }) u ∧
              Quiet (enqueueIf other u p (s.task p).onRq { restore := true, noclock := true })
                (setUserNice other s p nice))) := by
  unfold setUserNice
  split
  · rename_i hsame
    exact Or.inl ⟨hsame, rfl⟩
  · rename_i hchange
    refine Or.inr ⟨⟨fun heq => hchange (Or.inl heq), by omega, by omega⟩, ?_⟩
    split
    · rename_i hpol
      exact Or.inl ⟨hpol, rfl⟩
    · rename_i hpol
      rw [not_or, Bool.not_eq_true, Bool.not_eq_true] at hpol
      refine Or.inr ⟨hpol.1, hpol.2, _, Quiet.modify (setLoadWeight_quiet other _ p true), ?_⟩
      simp only
      refine Quiet.trans ?_ (setCurrIf_quiet other _ p _)
      split
      · exact reschedCurr_quiet _
      · exact Quiet.refl _

theorem setUserNice_inv (h : Inv s) (nice : Int) : Inv (setUserNice other s p nice) := by
  rcases setUserNice_cases other s p nice with ⟨-, heq⟩ | ⟨⟨-, hlo, hhi⟩, ⟨-, heq⟩ |
    ⟨hdl, hrt, u, hu, hback⟩⟩
  · rw [heq]
    exact h
  · rw [heq]
    exact h.modify_same ((h.linked.tasks p).setStatic ⟨hlo, hhi⟩) rfl rfl rfl rfl
  · have hsame := (takeOff_owns other s p { restore := true, noclock := true }).self
    have hok := takeOff_taskOK other (p := p) h { restore := true, noclock := true }
    have hcls : (u.task p).schedClass = (s.task p).schedClass := by
      rw [hu.task, Sys.modify_task_self]
      exact hsame.schedClass
    have hput := putBack_inv h { restore := true, noclock := true } hu
      (hok.renice ⟨hlo, hhi⟩ (by rw [hsame.policy]; exact hdl) (by rw [hsame.policy]; exact hrt))
      rfl rfl rfl (by unfold savedBy; rw [hcls]) (Or.inl hcls)
    exact hput.of_quiet hback

theorem doSetCpusAllowed_inv (h : Inv s) : Inv (doSetCpusAllowed other s p) := by
  have hsame := (takeOff_owns other s p { restore := true, noclock := true }).self
  have hid : (takeOff other s p { restore := true, noclock := true }).modify p id
      = takeOff other s p { restore := true, noclock := true } := by
    simp [Sys.modify]
  have hquiet : Quiet ((takeOff other s p { restore := true, noclock := true }).modify p id)
      (takeOff other s p { restore := true, noclock := true }) := by
    rw [hid]
    exact Quiet.refl _
  have hput := putBack_inv h { restore := true, noclock := true } hquiet
    (takeOff_taskOK other h _) rfl rfl rfl (by unfold savedBy; rw [hsame.schedClass])
    (Or.inl hsame.schedClass)
  unfold doSetCpusAllowed
  simp only
  exact hput.of_quiet (setCurrIf_quiet other _ p _)

/-! ### Priority inheritance -/

theorem rtEffectivePrioOf_le (s : Sys X) (piTask : Option TaskId) (prio : Int) :
    rtEffectivePrioOf s piTask prio ≤ prio := by
  cases piTask with
  | none => exact le_refl _
  | some d => exact min_le_left _ _

theorem rtEffectivePrioOf_ok (h : ∀ q, TaskOK (s.task q)) (piTask : Option TaskId) {prio : Int}
    (hprio : PrioOK prio) : PrioOK (rtEffectivePrioOf s piTask prio) := by
  cases piTask with
  | none => exact hprio
  | some d =>
      show PrioOK (min prio (s.task d).prio)
      rcases min_choice prio (s.task d).prio with heq | heq
      · rw [heq]
        exact hprio
      · rw [heq]
        exact (h d).prio

/-- A task's class follows from a deadline priority. -/
theorem TaskOK.class_of_dl {t : TaskStruct} (h : TaskOK t) (hdl : t.prio < 0) :
    t.schedClass = .dl := by
  have hcls := h.cls
  cases hc : t.schedClass <;> rw [hc] at hcls <;> simp only [ClassOK] at hcls <;>
    first | rfl | omega

theorem piClassOf_ne (prio : Int) : piClassOf prio ≠ .stop ∧ piClassOf prio ≠ .idle := by
  unfold piClassOf
  split
  · simp
  · split <;> simp

/-- What `rt_mutex_setprio` writes to a task whose priority has been `oldprio`. -/
def boosted (prio oldprio : Int) (t : TaskStruct) : TaskStruct :=
  { t with
    schedClass := piClassOf prio
    prio := prio
    rt := if !rtPrio prio ∧ rtPrio oldprio then { t.rt with timeout := 0 } else t.rt }

/-- The task with its new donor. -/
def withDonor (s : Sys X) (p : TaskId) (piTask : Option TaskId) : Sys X :=
  s.modify p fun t => { t with piTopTask := piTask }

variable (other) in
/-- What `rt_mutex_setprio` does: at most the donor is stored, or the task is boosted while it
is off its queue.  The flags of the enqueue differ from those of the dequeue in what the
real-time and the deadline class do with a task they get. -/
theorem rtMutexSetprio_cases (s : Sys X) (p : TaskId) (piTask : Option TaskId) {prio : Int}
    (hprio : rtEffectivePrioOf s piTask (s.task p).normalPrio = prio) :
    (((prio = (s.task p).prio ∧ dlPrio prio = false) ∨ p = s.idle) ∧
        (rtMutexSetprio other s p piTask = s ∨
          rtMutexSetprio other s p piTask = withDonor s p piTask)) ∨
      (¬(prio = (s.task p).prio ∧ dlPrio prio = false) ∧ p ≠ s.idle ∧
        ∃ flags flags' : QueueFlags, flags.move = decide ((s.task p).prio ≠ prio) ∧
          moveEntity flags' = moveEntity flags ∧ flags'.wakeup = false ∧
          Quiet (enqueueIf other
              ((takeOff other (withDonor s p piTask) p flags).modify p
                (boosted prio (s.task p).prio))
              p (s.task p).onRq flags')
            (rtMutexSetprio other s p piTask)) := by
  subst hprio
  unfold rtMutexSetprio
  simp only [s.modify_task_self, s.modify_idle]
  split
  · rename_i hsame
    exact Or.inl ⟨Or.inl ⟨hsame.2.1, by simpa using hsame.2.2⟩, Or.inl rfl⟩
  · split
    · rename_i hsame
      exact Or.inl ⟨Or.inl ⟨hsame.1, by simpa using hsame.2⟩, Or.inr rfl⟩
    · rename_i hchange
      split
      · rename_i hidle
        exact Or.inl ⟨Or.inr hidle, Or.inr rfl⟩
      · rename_i hidle
        refine Or.inr ⟨fun hsame => hchange ⟨hsame.1, by simpa using hsame.2⟩, hidle, _, _, ?_, ?_,
          ?_, (setCurrIf_quiet other _ p _).trans (checkClassChanged_quiet other _ p _ _)⟩
        · rfl
        · split
          · rfl
          · split <;> rfl
        · split
          · rfl
          · split <;> rfl

theorem rtMutexSetprio_inv (h : Inv s) (piTask : Option TaskId) :
    Inv (rtMutexSetprio other s p piTask) := by
  have hprioOK := rtEffectivePrioOf_ok h.linked.tasks piTask (h.linked.tasks p).normal
  have hle := rtEffectivePrioOf_le s piTask (s.task p).normalPrio
  have hdonor : Inv (withDonor s p piTask) := h.setDonor piTask
  generalize hprio : rtEffectivePrioOf s piTask (s.task p).normalPrio = prio at hprioOK hle
  rcases rtMutexSetprio_cases other s p piTask hprio with ⟨-, heq | heq⟩ |
    ⟨hchange, -, flags, flags', hmove, hflags, -, hquiet⟩
  · rw [heq]
    exact h
  · rw [heq]
    exact hdonor
  · have hself : (withDonor s p piTask).task p = { s.task p with piTopTask := piTask } :=
      s.modify_task_self ..
    have hon : ((withDonor s p piTask).task p).onRq = (s.task p).onRq := by rw [hself]
    have hsame := (takeOff_owns other (withDonor s p piTask) p flags).self
    have hok := takeOff_taskOK other (p := p) hdonor flags
    refine Inv.of_quiet ?_ hquiet
    rw [← hon]
    refine putBack_inv hdonor _ (Quiet.refl _) ?_ ?_ rfl rfl ?_ ?_
    · exact hok.setPi hprioOK (by rw [hsame.normalPrio, hself]; exact hle) _
    · show (if _ then _ else _ : SchedRtEntity).onRq = _
      split <;> rfl
    · by_cases hprio' : (s.task p).prio = prio
      · -- An unchanged priority is a deadline priority, and the class is the deadline class.
        have hneg : prio < 0 := by
          by_contra hge
          exact hchange ⟨hprio'.symm, by rw [dlPrio_eq_false]; omega⟩
        have hdl := (h.linked.tasks p).class_of_dl (by rw [hprio']; exact hneg)
        have hpi : piClassOf prio = .dl := by
          unfold piClassOf
          rw [if_pos (by simpa using hneg)]
        rw [savedBy_of_ne_rt (by rw [hself]; simp [hdl]), savedBy_of_ne_rt]
        rw [Sys.modify_task_self]
        simp [boosted, hpi]
      · have hmoves : moveEntity flags = true := by
          unfold moveEntity
          rw [hmove]
          simp [hprio']
        rw [savedBy_of_move hmoves, savedBy_of_move (hflags.trans hmoves)]
    · rw [Sys.modify_task_self]
      exact Or.inr (piClassOf_ne prio)

/-! ### `__sched_setscheduler` -/

theorem rtEffectivePrio_congr {s s' : Sys X} (hpi : (s'.task p).piTopTask = (s.task p).piTopTask)
    (hprio : ∀ q, (s'.task q).prio = (s.task q).prio) (prio : Int) :
    rtEffectivePrio s' p prio = rtEffectivePrio s p prio := by
  unfold rtEffectivePrio
  rw [hpi]
  cases (s.task p).piTopTask with
  | none => rfl
  | some d =>
      show min prio (s'.task d).prio = min prio (s.task d).prio
      rw [hprio d]

/-- The priority `__setscheduler` gives a task. -/
def setschedulerPrio (s : Sys X) (p : TaskId) (attr : SchedAttr) (policy : Policy)
    (keepBoost : Bool) : Int :=
  if keepBoost then rtEffectivePrio s p (normalPrio (setschedulerParams attr policy (s.task p)))
  else normalPrio (setschedulerParams attr policy (s.task p))

/-- The priority a task gets that becomes `SCHED_TS`. -/
theorem setschedulerPrio_ts (s : Sys X) (p : TaskId) (attr : SchedAttr) (pi : Bool) :
    setschedulerPrio s p attr .ts pi
      = if pi then rtEffectivePrio s p (s.task p).staticPrio else (s.task p).staticPrio := rfl

/-- The task `__setscheduler` leaves behind. -/
def rescheduled (attr : SchedAttr) (policy : Policy) (prio : Int) (t : TaskStruct) : TaskStruct :=
  { setschedulerParams attr policy t with
    prio := prio
    schedClass :=
      if dlPrio prio then .dl else classOf prio (setschedulerParams attr policy t).policy }

variable (other) in
theorem setscheduler_quiet (attr : SchedAttr) (policy : Policy) (keepBoost : Bool) :
    Quiet (s.modify p (rescheduled attr policy (setschedulerPrio s p attr policy keepBoost)))
      (setscheduler other s p attr policy keepBoost) := by
  have hload := setLoadWeight_quiet other (s.modify p (setschedulerParams attr policy)) p true
  have hself : (setLoadWeight other (s.modify p (setschedulerParams attr policy)) p true).task p
      = setschedulerParams attr policy (s.task p) := by
    rw [hload.task, s.modify_task_self]
  obtain ⟨-, -, -, -, -, hprio, hpi⟩ := setschedulerParams_kept attr policy (s.task p)
  have heff : rtEffectivePrio
      (setLoadWeight other (s.modify p (setschedulerParams attr policy)) p true) p
        (normalPrio (setschedulerParams attr policy (s.task p)))
      = rtEffectivePrio s p (normalPrio (setschedulerParams attr policy (s.task p))) := by
    refine rtEffectivePrio_congr (by rw [hself, hpi]) ?_ _
    intro q
    by_cases hq : q = p
    · subst hq
      rw [hself, hprio]
    · rw [hload.task, s.modify_task_of_ne _ hq]
  unfold setscheduler
  simp only
  rw [hself, heff]
  exact Quiet.modify hload (g := fun t =>
    { t with
      prio := setschedulerPrio s p attr policy keepBoost
      schedClass :=
        if dlPrio (setschedulerPrio s p attr policy keepBoost) then .dl
        else classOf (setschedulerPrio s p attr policy keepBoost) t.policy })

theorem setschedulerPrio_le (s : Sys X) (attr : SchedAttr) (policy : Policy) (keepBoost : Bool) :
    setschedulerPrio s p attr policy keepBoost
      ≤ normalPrio (setschedulerParams attr policy (s.task p)) := by
  unfold setschedulerPrio
  split
  · exact rtEffectivePrioOf_le s _ _
  · exact le_refl _

/-- A check that is not failed is passed. -/
theorem passed {c : Prop} [Decidable c] {fail rest verdict : SetschedulerVerdict}
    (h : (if c then fail else rest) = verdict) (hne : fail ≠ verdict) : ¬c ∧ rest = verdict := by
  by_cases hc : c
  · rw [if_pos hc] at h
    exact absurd h hne
  · rw [if_neg hc] at h
    exact ⟨hc, h⟩

/-- What a request that gets past the checks looks like. -/
theorem setschedulerCheck_change {env : SetschedulerEnv} {t : TaskStruct} {isStop : Bool}
    {attr : SchedAttr} {policy : Policy} {resetFork user : Bool}
    (h : setschedulerCheck env t isStop attr policy resetFork user = .change) :
    isStop = false ∧
      (policy.rtPolicy = true → 1 ≤ attr.schedPriority ∧ attr.schedPriority ≤ 99) ∧
      (policy.rtPolicy = false → attr.schedPriority = 0) := by
  unfold setschedulerCheck at h
  obtain ⟨-, h⟩ := passed h (by simp)
  obtain ⟨hmax, h⟩ := passed h (by simp)
  obtain ⟨-, h⟩ := passed h (by simp)
  obtain ⟨hprio, h⟩ := passed h (by simp)
  obtain ⟨-, h⟩ := passed h (by simp)
  obtain ⟨-, h⟩ := passed h (by simp)
  obtain ⟨-, h⟩ := passed h (by simp)
  obtain ⟨hstop, -⟩ := passed h (by simp)
  have hle : attr.schedPriority ≤ 99 := by
    unfold maxUserRtPrio maxRtPrio at hmax
    cases hmm : t.hasMm <;> simp [hmm] at hmax <;> omega
  refine ⟨by simpa using hstop, ?_, ?_⟩
  · intro hrt
    simp [hrt] at hprio
    omega
  · intro hrt
    simpa [hrt] using hprio

/-- The policy a request asks for. -/
def requestedPolicy (t : TaskStruct) (attr : SchedAttr) : Option Policy :=
  if attr.schedPolicy < 0 then some t.policy else Policy.ofInt? attr.schedPolicy

theorem ofInt?_deadline {n : Int} : Policy.ofInt? n = some .deadline ↔ n = 6 := by
  unfold Policy.ofInt?
  split <;> simp_all

theorem requestedPolicy_dl {t : TaskStruct} {attr : SchedAttr} {policy : Policy}
    (h : requestedPolicy t attr = some policy) :
    (attr.schedPolicy = 6 → policy = .deadline) ∧
      (policy = .deadline → attr.schedPolicy = 6 ∨ t.policy = .deadline) := by
  unfold requestedPolicy at h
  split at h
  · refine ⟨fun h6 => by omega, fun hpol => Or.inr ?_⟩
    rw [← hpol]
    exact Option.some.inj h
  · refine ⟨?_, ?_⟩
    · intro h6
      have := ofInt?_deadline.mpr h6
      rw [h] at this
      exact Option.some.inj this
    · intro hpol
      rw [hpol] at h
      exact Or.inl (ofInt?_deadline.mp h)

/-- A task that is neither the idle nor the stop task is of the real-time class exactly when
it has a real-time priority. -/
theorem TaskOK.class_rt_iff {t : TaskStruct} (h : TaskOK t) (hstop : t.schedClass ≠ .stop)
    (hidle : t.schedClass ≠ .idle) : t.schedClass = .rt ↔ 0 ≤ t.prio ∧ t.prio < 100 := by
  have hcls := h.cls
  cases hc : t.schedClass <;> rw [hc] at hcls hstop hidle <;> simp only [ClassOK] at hcls <;>
    simp at hstop hidle ⊢ <;> omega

/-- When `__sched_setscheduler` leaves `DEQUEUE_MOVE` out, the priority stays what it was, or
it was a deadline priority and still is one. -/
theorem setscheduler_prio (h : ∀ q, TaskOK (s.task q)) {attr : SchedAttr} {policy : Policy}
    (hpol : requestedPolicy (s.task p) attr = some policy)
    (hnice : -20 ≤ attr.schedNice ∧ attr.schedNice ≤ 19)
    (hrt : policy.rtPolicy = true → 1 ≤ attr.schedPriority ∧ attr.schedPriority ≤ 99)
    (hnrt : policy.rtPolicy = false → attr.schedPriority = 0)
    (heff : rtEffectivePrio s p
      (if attr.schedPolicy = 6 then -1 else maxRtPrio - 1 - attr.schedPriority) = (s.task p).prio) :
    setschedulerPrio s p attr policy true = (s.task p).prio ∨
      (setschedulerPrio s p attr policy true < 0 ∧ (s.task p).prio < 0) := by
  obtain ⟨hsix, hdl⟩ := requestedPolicy_dl hpol
  obtain ⟨hstatic, -, -⟩ := setschedulerParams_ok (h p) hnice hrt
  have hpolicy := setschedulerParams_policy attr policy (s.task p)
  have hprios : (setschedulerParams attr policy (s.task p)).rtPriority = attr.schedPriority := by
    unfold setschedulerParams
    dsimp only
  by_cases hd : policy = .deadline
  · -- A deadline policy gives a deadline priority.
    have hneg : setschedulerPrio s p attr policy true < 0 := by
      refine lt_of_le_of_lt (setschedulerPrio_le s attr policy true) ?_
      unfold normalPrio
      rw [hpolicy, hd, if_pos (show Policy.deadline.dlPolicy = true from rfl)]
      omega
    refine Or.inr ⟨hneg, ?_⟩
    rcases hdl hd with h6 | hold
    · rw [← heff, if_pos h6]
      exact lt_of_le_of_lt (rtEffectivePrioOf_le s _ _) (by omega)
    · exact ((h p).dlPolicy (by rw [hold]; rfl)).2
  · left
    have hne6 : attr.schedPolicy ≠ 6 := fun h6 => hd (hsix h6)
    rw [if_neg hne6] at heff
    have hdlp : policy.dlPolicy = false := by simpa [Policy.dlPolicy] using hd
    unfold setschedulerPrio
    rw [if_pos rfl]
    by_cases hr : policy.rtPolicy = true
    · -- A real-time policy: the stand-in priority is the new one.
      have hn : normalPrio (setschedulerParams attr policy (s.task p))
          = maxRtPrio - 1 - attr.schedPriority := by
        unfold normalPrio
        rw [hpolicy, if_neg (by simp [hdlp]), if_pos hr, hprios]
      rw [hn]
      exact heff
    · -- Any other policy: 99 is nobody's priority, so it is the donor's that is compared.
      have hn : normalPrio (setschedulerParams attr policy (s.task p))
          = (setschedulerParams attr policy (s.task p)).staticPrio := by
        unfold normalPrio
        rw [hpolicy, if_neg (by simp [hdlp]), if_neg hr]
      have h0 := hnrt (by simpa using hr)
      have h99 := (h p).prio.2.2
      rw [hn]
      unfold rtEffectivePrio rtEffectivePrioOf at heff ⊢
      unfold maxRtPrio at heff
      rw [h0] at heff
      cases hdonor : (s.task p).piTopTask with
      | none =>
          rw [hdonor] at heff
          simp only at heff
          omega
      | some d =>
          rw [hdonor] at heff
          simp only at heff ⊢
          omega

theorem rescheduled_ne (attr : SchedAttr) (policy : Policy) (prio : Int) (t : TaskStruct) :
    (rescheduled attr policy prio t).schedClass ≠ .stop ∧
      (rescheduled attr policy prio t).schedClass ≠ .idle := by
  unfold rescheduled
  dsimp only
  split
  · simp
  · exact classOf_ne _ _

theorem setschedulerPrio_ok (h : ∀ q, TaskOK (s.task q)) {attr : SchedAttr} {policy : Policy}
    (hnice : -20 ≤ attr.schedNice ∧ attr.schedNice ≤ 19)
    (hrt : policy.rtPolicy = true → 1 ≤ attr.schedPriority ∧ attr.schedPriority ≤ 99)
    (keepBoost : Bool) : PrioOK (setschedulerPrio s p attr policy keepBoost) := by
  obtain ⟨hstatic, hrtp, -⟩ := setschedulerParams_ok (h p) hnice hrt
  have hn := normalPrio_ok hstatic hrtp
  unfold setschedulerPrio
  split
  · exact rtEffectivePrioOf_ok h _ hn
  · exact hn

variable (other) in
/-- The task written between the dequeue and the enqueue is in range. -/
theorem rescheduled_ok (h : Inv s) {attr : SchedAttr} {policy : Policy}
    (hnice : -20 ≤ attr.schedNice ∧ attr.schedNice ≤ 19)
    (hrt : policy.rtPolicy = true → 1 ≤ attr.schedPriority ∧ attr.schedPriority ≤ 99)
    (flags : QueueFlags) (pi : Bool) :
    TaskOK (rescheduled attr policy (setschedulerPrio (takeOff other s p flags) p attr policy pi)
      ((takeOff other s p flags).task p)) := by
  have htasks : ∀ q, TaskOK ((takeOff other s p flags).task q) :=
    (takeOff_linked other h.linked rfl flags).tasks
  exact (takeOff_taskOK other h flags).setPolicy hnice hrt
    (setschedulerPrio_ok htasks hnice hrt pi) (setschedulerPrio_le _ attr policy pi)

variable (other) in
/-- Without `DEQUEUE_MOVE` the class is real-time after exactly when it was before. -/
theorem rescheduled_rt_iff (h : Inv s) (hidle : p ≠ s.idle) (hstop : s.stop ≠ some p)
    {attr : SchedAttr} {policy : Policy} (hpol : requestedPolicy (s.task p) attr = some policy)
    (hnice : -20 ≤ attr.schedNice ∧ attr.schedNice ≤ 19)
    (hrt : policy.rtPolicy = true → 1 ≤ attr.schedPriority ∧ attr.schedPriority ≤ 99)
    (hnrt : policy.rtPolicy = false → attr.schedPriority = 0)
    (heff : rtEffectivePrio s p
      (if attr.schedPolicy = 6 then -1 else maxRtPrio - 1 - attr.schedPriority) = (s.task p).prio)
    (flags : QueueFlags) :
    (s.task p).schedClass = .rt ↔
      (rescheduled attr policy (setschedulerPrio (takeOff other s p flags) p attr policy true)
        ((takeOff other s p flags).task p)).schedClass = .rt := by
  have hsame := (takeOff_owns other s p flags).self
  have hkept := takeOff_prio other s p flags
  have hprio := setscheduler_prio (p := p) (takeOff_linked other h.linked rfl flags).tasks
    (by unfold requestedPolicy at hpol ⊢; rw [hsame.policy]; exact hpol) hnice hrt hnrt
    (by rw [rtEffectivePrio_congr hsame.piTopTask (fun q => (hkept q).1), heff, (hkept p).1])
  rw [(hkept p).1] at hprio
  have hne := rescheduled_ne attr policy
    (setschedulerPrio (takeOff other s p flags) p attr policy true)
    ((takeOff other s p flags).task p)
  have hold := (h.linked.tasks p).class_rt_iff
    (fun hc => hstop (h.stopTask p hc)) (fun hc => hidle (h.idleTask p hc))
  have hnew := (rescheduled_ok other (p := p) h hnice hrt flags true).class_rt_iff hne.1 hne.2
  refine hold.trans (Iff.trans ?_ hnew.symm)
  show _ ↔ 0 ≤ setschedulerPrio (takeOff other s p flags) p attr policy true ∧
    setschedulerPrio (takeOff other s p flags) p attr policy true < 100
  omega

theorem setschedulerChange_inv (h : Inv s) (hidle : p ≠ s.idle) (hstop : s.stop ≠ some p)
    {attr : SchedAttr} {policy : Policy} (hpol : requestedPolicy (s.task p) attr = some policy)
    (hnice : -20 ≤ attr.schedNice ∧ attr.schedNice ≤ 19)
    (hrt : policy.rtPolicy = true → 1 ≤ attr.schedPriority ∧ attr.schedPriority ≤ 99)
    (hnrt : policy.rtPolicy = false → attr.schedPriority = 0) (resetFork pi : Bool) :
    Inv (setschedulerChange other s p attr policy resetFork pi) := by
  unfold setschedulerChange
  simp only
  have h1 := h.setResetOnFork (p := p) resetFork
  have hpol1 : requestedPolicy ((s.modify p fun t =>
      { t with schedResetOnFork := resetFork }).task p) attr = some policy := by
    rw [s.modify_task_self]
    exact hpol
  replace hidle : p ≠ (s.modify p fun t => { t with schedResetOnFork := resetFork }).idle := hidle
  replace hstop : (s.modify p fun t => { t with schedResetOnFork := resetFork }).stop ≠ some p :=
    hstop
  generalize s.modify p (fun t => { t with schedResetOnFork := resetFork }) = s₁
    at h1 hpol1 hidle hstop
  refine Inv.of_quiet ?_ (checkClassChanged_quiet other _ p _ _)
  refine Inv.of_quiet ?_ (setCurrIf_quiet other _ p _)
  generalize hflags : ({ restore := true
                         move := !(pi && decide (rtEffectivePrio s₁ p
                          (if attr.schedPolicy = 6 then -1 else maxRtPrio - 1 - attr.schedPriority)
                            = (s₁.task p).prio))
                         noclock := true } : QueueFlags) = flags
  have hquiet := setscheduler_quiet other (s := takeOff other s₁ p flags) (p := p)
    attr policy pi
  have hparams := setschedulerParams_kept attr policy ((takeOff other s₁ p flags).task p)
  refine putBack_inv h1 _ hquiet (rescheduled_ok other h1 hnice hrt flags pi) ?_ ?_ ?_ ?_ ?_
  · exact congrArg SchedRtEntity.onRq hparams.2.1
  · exact hparams.2.2.1
  · exact hparams.2.2.2.1
  · rw [hquiet.task, Sys.modify_task_self]
    by_cases hm : moveEntity flags = true
    · rw [savedBy_of_move hm, savedBy_of_move]
      rw [← hflags] at hm
      exact hm
    · have hmove : pi = true ∧ rtEffectivePrio s₁ p
          (if attr.schedPolicy = 6 then -1 else maxRtPrio - 1 - attr.schedPriority)
            = (s₁.task p).prio := by
        rw [← hflags] at hm
        simpa [moveEntity] using hm
      obtain ⟨rfl, heff⟩ := hmove
      have hcls := rescheduled_rt_iff other h1 hidle hstop hpol1 hnice hrt hnrt heff flags
      exact savedBy_congr hcls (by rw [← hflags]) (by rw [← hflags])
  · rw [hquiet.task, Sys.modify_task_self]
    exact Or.inr (rescheduled_ne attr policy _ _)

theorem schedSetscheduler_inv (h : Inv s) (hidle : p ≠ s.idle) {attr : SchedAttr}
    (hnice : -20 ≤ attr.schedNice ∧ attr.schedNice ≤ 19) (env : SetschedulerEnv)
    (user pi : Bool) : Inv (schedSetscheduler other env s p attr user pi).2 := by
  unfold schedSetscheduler
  simp only
  split
  · exact h
  · rename_i policy hpol
    split
    · exact h
    · exact h.setResetOnFork _
    · rename_i hcheck
      obtain ⟨hstop, hrt, hnrt⟩ := setschedulerCheck_change hcheck
      exact setschedulerChange_inv h hidle (by simpa using hstop) hpol hnice hrt hnrt _ pi

/-- The policy asked for is the policy stored. -/
theorem setschedulerChange_policy (other : OtherClasses X) (s : Sys X) (p : TaskId)
    (attr : SchedAttr) (policy : Policy) (resetFork pi : Bool) :
    ((setschedulerChange other s p attr policy resetFork pi).task p).policy = policy := by
  unfold setschedulerChange
  simp only
  rw [(checkClassChanged_quiet other _ p _ _).task, (setCurrIf_quiet other _ p _).task,
    (enqueueIf_owns other _ p _ _).self.policy, (setscheduler_quiet other attr policy pi).task,
    Sys.modify_task_self]
  exact setschedulerParams_policy attr policy _

end Sched
