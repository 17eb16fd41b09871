/-
Priorities and slices stay in range, task by task.

`TaskOK` is what is true of every task in every state: the nice value is in range,
priorities run from -1 to 139, the slice from 1 to 16, and the class is one the
priority allows.  Each way the scheduler has of rewriting a task is shown to keep
it; the machine's invariant then only has to say that it holds of all tasks.

The value 99 never occurs as a priority: real-time priorities are 99 minus a
number from 1 to 99, the others start at 100, and a boost is a minimum of two
priorities.  `__sched_setscheduler` relies on it, since it uses 99 as the stand-in
priority of every policy that is not real-time.
-/
import KernelProgramming.Proofs.Sched.Frame

namespace Sched

/-- A value `p->prio` can have. -/
def PrioOK (prio : Int) : Prop := -1 ≤ prio ∧ prio ≤ 139 ∧ prio ≠ 99

/-- The priorities a task of the class can have. -/
def ClassOK : SchedClass → Int → Prop
  | .dl, prio => prio < 0
  | .rt, prio => 0 ≤ prio ∧ prio < 100
  | .ts, prio => 100 ≤ prio
  | .fair, prio => 100 ≤ prio
  | .stop, prio => 0 ≤ prio
  | .idle, prio => 0 ≤ prio

/-- What is true of every task. -/
structure TaskOK (t : TaskStruct) : Prop where
  static : 100 ≤ t.staticPrio ∧ t.staticPrio ≤ 139
  rtPriority : t.policy.rtPolicy = true → 1 ≤ t.rtPriority ∧ t.rtPriority ≤ 99
  normal : PrioOK t.normalPrio
  prio : PrioOK t.prio
  slice : 1 ≤ t.ts.timeSlice ∧ t.ts.timeSlice ≤ 16
  cls : ClassOK t.schedClass t.prio
  tsPolicy : t.schedClass = .ts → t.policy = .ts
  dlPolicy : t.policy.dlPolicy = true → t.normalPrio < 0 ∧ t.prio < 0

namespace TaskOK

variable {t t' : TaskStruct}

/-- A task of the time-sharing class has a level. -/
theorem ts_range (h : TaskOK t) (hts : t.schedClass = .ts) : 100 ≤ t.prio ∧ t.prio ≤ 139 := by
  have hcls := h.cls
  rw [hts] at hcls
  exact ⟨hcls, h.prio.2.1⟩

/-- Only the fields `TaskOK` names matter. -/
theorem of_sameTask (h : TaskOK t) (hs : SameTask t t') (hprio : t'.prio = t.prio)
    (hts : t'.ts = t.ts) : TaskOK t' := by
  refine ⟨?_, ?_, ?_, ?_, ?_, ?_, ?_, ?_⟩
  · rw [hs.staticPrio]; exact h.static
  · rw [hs.policy, hs.rtPriority]; exact h.rtPriority
  · rw [hs.normalPrio]; exact h.normal
  · rw [hprio]; exact h.prio
  · rw [hts]; exact h.slice
  · rw [hs.schedClass, hprio]; exact h.cls
  · rw [hs.schedClass, hs.policy]; exact h.tsPolicy
  · rw [hs.policy, hs.normalPrio, hprio]; exact h.dlPolicy

end TaskOK

/-! ### The tables of `ts.c` -/

theorem getNewPrio_range {prio : Int} (h : 100 ≤ prio ∧ prio ≤ 139) (ev : PrioEvent) :
    (getNewPrio prio ev).2 = [] ∧
      100 ≤ (getNewPrio prio ev).1 ∧ (getNewPrio prio ev).1 ≤ 139 := by
  have hidx : ¬(139 - prio < 0 ∨ 139 - prio > 39) := by omega
  unfold getNewPrio
  simp only [if_neg hidx]
  cases ev with
  | expire =>
      refine ⟨rfl, ?_⟩
      show 100 ≤ 139 - (if 139 - prio < 10 then 0 else 139 - prio - 10) ∧
        139 - (if 139 - prio < 10 then 0 else 139 - prio - 10) ≤ 139
      split <;> omega
  | sleep =>
      refine ⟨rfl, ?_⟩
      dsimp only
      repeat' split
      all_goals omega

theorem getNumTicks_range {prio : Int} (h : 100 ≤ prio ∧ prio ≤ 139) :
    (getNumTicks prio).2 = [] ∧ 1 ≤ (getNumTicks prio).1 ∧ (getNumTicks prio).1 ≤ 16 := by
  unfold getNumTicks
  dsimp only
  repeat' split
  all_goals first | omega | simp

/-- A priority in range has a list. -/
theorem tsLevel?_of_range {prio : Int} (h : 100 ≤ prio ∧ prio ≤ 139) :
    ∃ i, tsLevel? (139 - prio) = some i := by
  unfold tsLevel?
  rw [dif_pos (by omega)]
  exact ⟨_, rfl⟩

theorem tsLevel?_val {idx : Int} {i : Fin 40} (h : tsLevel? idx = some i) :
    (i.val : Int) = idx := by
  unfold tsLevel? at h
  split at h
  · simp only [Option.some.injEq] at h
    subst h
    show ((idx.toNat : Nat) : Int) = idx
    omega
  · simp at h

/-- Different priorities have different lists. -/
theorem tsLevel?_inj {a b : Int} {i : Fin 40} (ha : tsLevel? a = some i)
    (hb : tsLevel? b = some i) : a = b := by
  rw [← tsLevel?_val ha, ← tsLevel?_val hb]

theorem decTimeSlice_of_pos {n : Nat} (h : 1 ≤ n) (h' : n ≤ 16) : decTimeSlice n = n - 1 := by
  unfold decTimeSlice
  omega

/-! ### Rewriting a task -/

section rewrite

variable {t : TaskStruct}

/-- A time-sharing task may be given any priority of the time-sharing range. -/
theorem TaskOK.setTsPrio (h : TaskOK t) (hts : t.schedClass = .ts) {prio : Int}
    (hp : 100 ≤ prio ∧ prio ≤ 139) : TaskOK { t with prio := prio } := by
  have hok : PrioOK prio := by unfold PrioOK; omega
  refine ⟨h.static, h.rtPriority, h.normal, hok, h.slice, ?_, h.tsPolicy, ?_⟩
  · show ClassOK t.schedClass prio
    rw [hts]
    exact hp.1
  · intro hdl
    have hpol : t.policy.dlPolicy = true := hdl
    rw [h.tsPolicy hts] at hpol
    simp [Policy.dlPolicy] at hpol

/-- Whether a task is runnable and queued is not a matter of ranges. -/
theorem TaskOK.setRunnable (h : TaskOK t) (state : TaskState) (onRq : Bool) :
    TaskOK { t with state := state, onRq := onRq } :=
  ⟨h.static, h.rtPriority, h.normal, h.prio, h.slice, h.cls, h.tsPolicy, h.dlPolicy⟩

theorem TaskOK.setSlice (h : TaskOK t) {n : Nat} (hn : 1 ≤ n ∧ n ≤ 16) :
    TaskOK { t with ts := { t.ts with timeSlice := n } } :=
  ⟨h.static, h.rtPriority, h.normal, h.prio, hn, h.cls, h.tsPolicy, h.dlPolicy⟩

theorem normalPrio_ok (hstatic : 100 ≤ t.staticPrio ∧ t.staticPrio ≤ 139)
    (hrt : t.policy.rtPolicy = true → 1 ≤ t.rtPriority ∧ t.rtPriority ≤ 99) :
    PrioOK (normalPrio t) := by
  unfold normalPrio PrioOK maxRtPrio
  split
  · omega
  · split
    · rename_i hpol
      have := hrt hpol
      omega
    · omega

theorem classOf_ok {prio : Int} (hdl : dlPrio prio = false) (policy : Policy) :
    ClassOK (classOf prio policy) prio := by
  unfold classOf
  split
  · rename_i hrt
    exact ⟨dlPrio_eq_false.mp hdl, rtPrio_eq_true.mp hrt⟩
  · rename_i hrt
    have h100 : 100 ≤ prio := by simpa using hrt
    split <;> exact h100

theorem classOf_ts {prio : Int} {policy : Policy} (h : classOf prio policy = .ts) :
    policy = .ts := by
  unfold classOf at h
  split at h
  · simp at h
  · split at h
    · rename_i hts
      simpa [Policy.tsPolicy] using hts
    · simp at h

theorem piClassOf_ok (prio : Int) : ClassOK (piClassOf prio) prio := by
  unfold piClassOf
  split
  · rename_i hdl
    exact dlPrio_eq_true.mp hdl
  · rename_i hdl
    have h0 : 0 ≤ prio := by simpa using hdl
    split
    · rename_i hrt
      exact ⟨h0, rtPrio_eq_true.mp hrt⟩
    · rename_i hrt
      have h100 : 100 ≤ prio := by simpa using hrt
      exact h100

theorem piClassOf_ne_ts (prio : Int) : piClassOf prio ≠ .ts := by
  unfold piClassOf
  split
  · simp
  · split <;> simp

theorem TaskOK.resetOnFork (hstatic : 100 ≤ t.staticPrio ∧ t.staticPrio ≤ 139)
    (hrt : t.policy.rtPolicy = true → 1 ≤ t.rtPriority ∧ t.rtPriority ≤ 99)
    (hprio : PrioOK t.prio) (hnormal : PrioOK t.normalPrio) :
    (100 ≤ (resetOnFork t).staticPrio ∧ (resetOnFork t).staticPrio ≤ 139) ∧
      ((resetOnFork t).policy.rtPolicy = true →
        1 ≤ (resetOnFork t).rtPriority ∧ (resetOnFork t).rtPriority ≤ 99) ∧
      PrioOK (resetOnFork t).prio ∧ PrioOK (resetOnFork t).normalPrio ∧
      (resetOnFork t).ts = t.ts := by
  have hzero : PrioOK (niceToPrio 0) := by unfold PrioOK niceToPrio; omega
  have hst : PrioOK t.staticPrio := by unfold PrioOK; omega
  unfold Sched.resetOnFork
  by_cases hres : t.schedResetOnFork = true
  · simp only [hres, Bool.not_true, Bool.false_eq_true, if_false]
    split
    · refine ⟨?_, ?_, hzero, hzero, rfl⟩
      · show 100 ≤ niceToPrio 0 ∧ niceToPrio 0 ≤ 139
        unfold niceToPrio
        omega
      · intro hpol
        simp [Policy.rtPolicy] at hpol
    · split
      · refine ⟨?_, hrt, hzero, hzero, rfl⟩
        show 100 ≤ niceToPrio 0 ∧ niceToPrio 0 ≤ 139
        unfold niceToPrio
        omega
      · exact ⟨hstatic, hrt, hst, hst, rfl⟩
  · rw [if_pos (by simpa using hres)]
    exact ⟨hstatic, hrt, hprio, hnormal, rfl⟩

/-- Only a task that is not reset can still have a deadline policy. -/
theorem resetOnFork_of_dl (h : (resetOnFork t).policy.dlPolicy = true) : resetOnFork t = t := by
  unfold resetOnFork at h ⊢
  by_cases hres : t.schedResetOnFork = true
  · simp only [hres, Bool.not_true, Bool.false_eq_true, if_false] at h
    split at h
    · simp [Policy.dlPolicy] at h
    · rename_i hpol
      split at h <;> exact absurd (Or.inl h) hpol
  · rw [if_pos (by simpa using hres)]

/-- A forked task. -/
theorem TaskOK.forked {X : Type} (other : OtherClasses X) (h : TaskOK t)
    (hdl : dlPrio (forkedTask other t).prio = false) :
    TaskOK { forkedTask other t with
      schedClass := classOf (forkedTask other t).prio (forkedTask other t).policy } := by
  obtain ⟨hstatic, hrt, hprio, hnormal, hts⟩ :=
    TaskOK.resetOnFork (t := { schedForkBasic other { t with piTopTask := none } with
      state := .new, prio := t.normalPrio }) h.static h.rtPriority h.normal h.normal
  refine ⟨hstatic, hrt, hnormal, hprio, ?_, classOf_ok hdl _, classOf_ts, ?_⟩
  · show 1 ≤ (forkedTask other t).ts.timeSlice ∧ (forkedTask other t).ts.timeSlice ≤ 16
    unfold forkedTask
    rw [hts]
    show 1 ≤ 12 ∧ 12 ≤ 16
    omega
  · -- A child that keeps a deadline policy has a deadline priority, and is refused.
    intro hpol
    have hsame := resetOnFork_of_dl hpol
    have hneg : t.normalPrio < 0 := by
      have hpol' : (forkedTask other t).policy.dlPolicy = true := hpol
      unfold forkedTask at hpol'
      rw [hsame] at hpol'
      exact (h.dlPolicy hpol').1
    have hprio' : (forkedTask other t).prio = t.normalPrio := by
      unfold forkedTask
      rw [hsame]
    rw [hprio', dlPrio_eq_false] at hdl
    omega

/-- What `set_user_nice` does to a task that is neither real-time nor deadline. -/
theorem TaskOK.renice (h : TaskOK t) {nice : Int} (hnice : -20 ≤ nice ∧ nice ≤ 19)
    (hdl : t.policy.dlPolicy = false) (hrt : t.policy.rtPolicy = false) :
    TaskOK (effectivePrio { t with staticPrio := niceToPrio nice }) := by
  have hst : 100 ≤ niceToPrio nice ∧ niceToPrio nice ≤ 139 := by unfold niceToPrio; omega
  have hstok : PrioOK (niceToPrio nice) := by unfold PrioOK; omega
  have hnp : normalPrio { t with staticPrio := niceToPrio nice } = niceToPrio nice := by
    unfold normalPrio
    rw [if_neg (by simp [hdl]), if_neg (by simp [hrt])]
  have hnodl : ∀ {P : Prop}, t.policy.dlPolicy = true → P := by
    intro P hpol
    rw [hdl] at hpol
    simp at hpol
  unfold effectivePrio
  rw [hnp]
  by_cases hp : rtPrio t.prio = true
  · refine ⟨hst, h.rtPriority, hstok, ?_, h.slice, ?_, h.tsPolicy, hnodl⟩
    · simp only [hp, Bool.not_true, Bool.false_eq_true, if_false]
      exact h.prio
    · simp only [hp, Bool.not_true, Bool.false_eq_true, if_false]
      exact h.cls
  · have h100 : 100 ≤ t.prio := by simpa using hp
    refine ⟨hst, h.rtPriority, hstok, ?_, h.slice, ?_, h.tsPolicy, hnodl⟩
    · simp only [hp, Bool.not_false, if_true]
      exact hstok
    · simp only [hp, Bool.not_false, if_true]
      have hcls := h.cls
      show ClassOK t.schedClass (niceToPrio nice)
      cases hc : t.schedClass <;> rw [hc] at hcls <;> simp only [ClassOK] at hcls ⊢ <;> omega

theorem TaskOK.setStatic (h : TaskOK t) {nice : Int} (hnice : -20 ≤ nice ∧ nice ≤ 19) :
    TaskOK { t with staticPrio := niceToPrio nice } := by
  refine ⟨?_, h.rtPriority, h.normal, h.prio, h.slice, h.cls, h.tsPolicy, h.dlPolicy⟩
  show 100 ≤ niceToPrio nice ∧ niceToPrio nice ≤ 139
  unfold niceToPrio
  omega

/-- A boost or a de-boost. -/
theorem TaskOK.setPi (h : TaskOK t) {prio : Int} (hprio : PrioOK prio)
    (hle : prio ≤ t.normalPrio) (rt : SchedRtEntity) :
    TaskOK { t with schedClass := piClassOf prio, prio := prio, rt := rt } := by
  refine ⟨h.static, h.rtPriority, h.normal, hprio, h.slice, piClassOf_ok prio, ?_, ?_⟩
  · intro hts
    exact absurd hts (piClassOf_ne_ts prio)
  · intro hdl
    have hneg := (h.dlPolicy hdl).1
    exact ⟨hneg, lt_of_le_of_lt hle hneg⟩

/-- The parameters `__setscheduler_params` stores are in range. -/
theorem setschedulerParams_ok (h : TaskOK t) {attr : SchedAttr} {policy : Policy}
    (hnice : -20 ≤ attr.schedNice ∧ attr.schedNice ≤ 19)
    (hrt : policy.rtPolicy = true → 1 ≤ attr.schedPriority ∧ attr.schedPriority ≤ 99) :
    (100 ≤ (setschedulerParams attr policy t).staticPrio ∧
        (setschedulerParams attr policy t).staticPrio ≤ 139) ∧
      ((setschedulerParams attr policy t).policy.rtPolicy = true →
        1 ≤ (setschedulerParams attr policy t).rtPriority ∧
        (setschedulerParams attr policy t).rtPriority ≤ 99) ∧
      (setschedulerParams attr policy t).normalPrio
        = normalPrio (setschedulerParams attr policy t) := by
  unfold setschedulerParams
  dsimp only
  split
  · refine ⟨?_, hrt, rfl⟩
    show 100 ≤ niceToPrio attr.schedNice ∧ niceToPrio attr.schedNice ≤ 139
    unfold niceToPrio
    omega
  · exact ⟨h.static, hrt, rfl⟩

theorem setschedulerParams_policy (attr : SchedAttr) (policy : Policy) (t : TaskStruct) :
    (setschedulerParams attr policy t).policy = policy := by
  unfold setschedulerParams
  dsimp only
  split <;> rfl

/-- The parameters are stored; priority, class, entities and queueing are not touched. -/
theorem setschedulerParams_kept (attr : SchedAttr) (policy : Policy) (t : TaskStruct) :
    (setschedulerParams attr policy t).ts = t.ts ∧
      (setschedulerParams attr policy t).rt = t.rt ∧
      (setschedulerParams attr policy t).state = t.state ∧
      (setschedulerParams attr policy t).onRq = t.onRq ∧
      (setschedulerParams attr policy t).schedClass = t.schedClass ∧
      (setschedulerParams attr policy t).prio = t.prio ∧
      (setschedulerParams attr policy t).piTopTask = t.piTopTask := by
  unfold setschedulerParams
  dsimp only
  split <;> exact ⟨rfl, rfl, rfl, rfl, rfl, rfl, rfl⟩

/-- A change of policy. -/
theorem TaskOK.setPolicy (h : TaskOK t) {attr : SchedAttr} {policy : Policy}
    (hnice : -20 ≤ attr.schedNice ∧ attr.schedNice ≤ 19)
    (hrt : policy.rtPolicy = true → 1 ≤ attr.schedPriority ∧ attr.schedPriority ≤ 99)
    {prio : Int} (hprio : PrioOK prio)
    (hle : prio ≤ normalPrio (setschedulerParams attr policy t)) :
    TaskOK { setschedulerParams attr policy t with
      prio := prio
      schedClass :=
        if dlPrio prio then .dl else classOf prio (setschedulerParams attr policy t).policy } := by
  obtain ⟨hstatic, hrtp, hnormal⟩ := setschedulerParams_ok h hnice hrt
  refine ⟨hstatic, hrtp, ?_, hprio, ?_, ?_, ?_, ?_⟩
  · show PrioOK (setschedulerParams attr policy t).normalPrio
    rw [hnormal]
    exact normalPrio_ok hstatic hrtp
  · show 1 ≤ (setschedulerParams attr policy t).ts.timeSlice ∧
      (setschedulerParams attr policy t).ts.timeSlice ≤ 16
    rw [(setschedulerParams_kept attr policy t).1]
    exact h.slice
  · show ClassOK (if dlPrio prio then .dl else classOf prio _) prio
    split
    · rename_i hdl
      exact dlPrio_eq_true.mp hdl
    · rename_i hdl
      exact classOf_ok (by simpa using hdl) _
  · intro hts
    have hts' : (if dlPrio prio then SchedClass.dl
        else classOf prio (setschedulerParams attr policy t).policy) = .ts := hts
    split at hts'
    · simp at hts'
    · exact classOf_ts hts'
  · intro hdl
    have hneg : normalPrio (setschedulerParams attr policy t) < 0 := by
      unfold normalPrio
      rw [if_pos hdl]
      omega
    exact ⟨lt_of_eq_of_lt hnormal hneg, lt_of_le_of_lt hle hneg⟩

end rewrite

end Sched
