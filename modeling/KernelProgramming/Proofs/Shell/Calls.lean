/-
What the functions of `myshell.c` come to, and what is true of the job list in
every run.

The loop of `exec_job` has one result, whatever the statuses and the list are:
one new job at the front with all its processes running.  The loop of `wait_job`
only rewrites the statuses of the job it waits for.  So jobs are on the list in
the order they were launched, the newest first.
-/
import KernelProgramming.Lib.Runs
import KernelProgramming.Shell.Jobs

namespace Shell

variable {s s' : Sh} {j k : JobId} {pid : Int}

theorem hasPid_iff {jb : Job} : jb.hasPid pid = true ↔ pid ∈ jb.list.map (·.pid) := by
  unfold Job.hasPid
  rw [List.any_eq_true, List.mem_map]
  constructor
  · rintro ⟨ps, hps, heq⟩
    exact ⟨ps, hps, of_decide_eq_true heq⟩
  · rintro ⟨ps, hps, heq⟩
    exact ⟨ps, hps, decide_eq_true heq⟩

theorem hasPid_congr {jb jb' : Job} (h : jb'.list.map (·.pid) = jb.list.map (·.pid)) (pid : Int) :
    jb'.hasPid pid = jb.hasPid pid := by
  rw [Bool.eq_iff_iff, hasPid_iff, hasPid_iff, h]

/-- Where the pids are the same, every process has its counterpart. -/
theorem exists_of_pids {l l' : List Process} (hpids : l'.map (·.pid) = l.map (·.pid))
    {ps : Process} (hps : ps ∈ l') : ∃ qs ∈ l, qs.pid = ps.pid := by
  have hmem : ps.pid ∈ l.map (·.pid) := by
    rw [← hpids]
    exact List.mem_map_of_mem hps
  exact List.mem_map.mp hmem

theorem changeStatus_pid (ps : Process) (status : WaitStatus) :
    (changeStatus ps status).pid = ps.pid := by
  cases status <;> rfl

theorem changeStatus_terminated (ps : Process) (e : Event) :
    (changeStatus ps e.status).status = .terminated ↔ e.ends = true := by
  cases e <;> simp [changeStatus, Event.status, Event.ends]

/-! ### `exec_job` -/

/-- The state after the loop of `exec_job`. -/
def withJob (s : Sh) (pids : List Int) : Sh :=
  { s with
    job := Function.update s.job s.launched
      { pgid := pids.headD 0, list := pids.reverse.map fun pid => { pid, status := .running } }
    launched := s.launched + 1
    head := s.launched :: s.head
    child := fun q => if q ∈ pids ∧ q ≠ -1 then some s.launched else s.child q }

@[simp] theorem withJob_job_self (s : Sh) (pids : List Int) : (withJob s pids).job s.launched
    = { pgid := pids.headD 0, list := pids.reverse.map fun pid => { pid, status := .running } } :=
  Function.update_self ..

theorem withJob_job_of_ne (s : Sh) (pids : List Int) (hj : j ≠ s.launched) :
    (withJob s pids).job j = s.job j := Function.update_of_ne hj ..

theorem mem_withJob_list {pids : List Int} {ps : Process}
    (h : ps ∈ ((withJob s pids).job s.launched).list) : ps.pid ∈ pids ∧ ps.status = .running := by
  rw [withJob_job_self] at h
  obtain ⟨pid, hpid, rfl⟩ := List.mem_map.mp h
  exact ⟨List.mem_reverse.mp hpid, rfl⟩

theorem withJob_pids (s : Sh) (pids : List Int) :
    ((withJob s pids).job s.launched).list.map (·.pid) = pids.reverse := by
  rw [withJob_job_self, List.map_map]
  exact List.map_id _

theorem forked_apply (child : Int → Option JobId) (pid : Int) (j : JobId) (q : Int) :
    forked child pid j q = if q = pid ∧ q ≠ -1 then some j else child q := by
  unfold forked
  by_cases hpid : pid = -1
  · rw [if_pos hpid, if_neg fun hq => hq.2 (hq.1.trans hpid)]
  · rw [if_neg hpid, Function.update_apply]
    refine if_congr ⟨fun hq => ⟨hq, ?_⟩, And.left⟩ rfl rfl
    rw [hq]
    exact hpid

theorem newJob_eq (s : Sh) (pid : Int) : newJob s pid = withJob s [pid] := by
  unfold newJob withJob
  congr 1
  funext q
  simp [forked_apply]

/-- One more process. -/
theorem addProcess_eq (s : Sh) {pids : List Int} (hne : pids ≠ []) (pid : Int) :
    addProcess (withJob s pids) pid = some (withJob s (pids ++ [pid])) := by
  obtain ⟨first, rest, rfl⟩ := List.exists_cons_of_ne_nil hne
  unfold addProcess
  have hhead : (withJob s (first :: rest)).head = s.launched :: s.head := rfl
  rw [hhead]
  simp only [withJob_job_self, Option.some.injEq]
  unfold withJob Sh.setJob
  simp only [Function.update_idem]
  congr 1
  · simp
  · funext q
    rw [forked_apply]
    by_cases hq : q = pid
    · by_cases hfailed : q = -1 <;> simp [← hq, hfailed]
    · simp [hq]

theorem launchLoop_rest (s : Sh) {pgid : Int} (hpgid : pgid ≠ 0) : ∀ (pids done : List Int),
    done ≠ [] → launchLoop (withJob s done) pgid pids = some (withJob s (done ++ pids)) := by
  intro pids
  induction pids with
  | nil =>
      intro done _
      rw [List.append_nil]
      rfl
  | cons pid rest ih =>
      intro done hne
      unfold launchLoop
      rw [if_neg hpgid, addProcess_eq s hne, Option.bind_some, ih _ (by simp),
        List.append_assoc]
      rfl

/-- **The loop of `exec_job`** puts one new job in front. -/
theorem launchLoop_eq (s : Sh) {pids : List Int} (hne : pids ≠ []) (hzero : 0 ∉ pids) :
    launchLoop s 0 pids = some (withJob s pids) := by
  obtain ⟨pid, rest, rfl⟩ := List.exists_cons_of_ne_nil hne
  have hpid : pid ≠ 0 := fun heq => hzero (heq ▸ List.mem_cons_self ..)
  unfold launchLoop
  rw [if_pos rfl, newJob_eq, launchLoop_rest s hpid rest [pid] (by simp)]
  rfl

theorem execJob_eq (s : Sh) {pids : List Int} (hne : pids ≠ []) (hzero : 0 ∉ pids)
    (async : Bool) (status : WaitStatus) (report : Reports) :
    execJob s pids async status report
      = if async then some (withJob s pids)
        else waitJob (withJob s pids) s.launched status report := by
  unfold execJob
  rw [launchLoop_eq s hne hzero, Option.bind_some]

/-! ### `wait_job` -/

theorem waitpid_child_fst {child : Int → Option JobId} (status status' : WaitStatus) (e : Event) :
    (waitpid child pid status e).1 = (waitpid child pid status' e).1 := by
  unfold waitpid
  split
  · rfl
  · split <;> rfl

/-- Waiting rewrites statuses and nothing else. -/
theorem waitLoop_pids (report : Reports) : ∀ (l : List Process) (child : Int → Option JobId)
    (status : WaitStatus), (waitLoop report child status l).2.map (·.pid) = l.map (·.pid) := by
  intro l
  induction l with
  | nil =>
      intro child status
      rfl
  | cons ps rest ih =>
      intro child status
      show (changeStatus ps _).pid :: (waitLoop report _ _ rest).2.map (·.pid) = _
      rw [ih, changeStatus_pid, List.map_cons]

/-- The state after the loop of `wait_job`. -/
def afterWait (s : Sh) (j : JobId) (status : WaitStatus) (report : Reports) : Sh :=
  { s.setJob j { s.job j with list := (waitLoop report s.child status (s.job j).list).2 } with
    child := (waitLoop report s.child status (s.job j).list).1 }

theorem waitJob_eq (s : Sh) (j : JobId) (status : WaitStatus) (report : Reports) :
    waitJob s j status report = finishWait (afterWait s j status report) j := rfl

theorem afterWait_pids (s : Sh) (j k : JobId) (status : WaitStatus) (report : Reports) :
    ((afterWait s j status report).job k).list.map (·.pid) = (s.job k).list.map (·.pid) := by
  by_cases hk : k = j
  · subst hk
    show (Function.update s.job k _ k).list.map (·.pid) = _
    rw [Function.update_self]
    exact waitLoop_pids report _ _ _
  · show (Function.update s.job j _ k).list.map (·.pid) = _
    rw [Function.update_of_ne hk]

/-- The three ways `wait_job` ends. -/
theorem finishWait_cases (h : finishWait s j = some s') :
    ((s.job j).terminated = true ∧ ∃ first rest, s.head = first :: rest ∧ s' = { s with head := rest }) ∨
      ((s.job j).terminated = false ∧ (s' = { s with current := some j } ∨ s' = s)) := by
  unfold finishWait at h
  split at h
  · rename_i hterm
    left
    unfold popHead at h
    split at h
    · simp at h
    · rename_i first rest hhead
      exact ⟨hterm, first, rest, hhead, (Option.some.inj h).symm⟩
  · rename_i hterm
    right
    refine ⟨by simpa using hterm, ?_⟩
    split at h
    · exact Or.inl (Option.some.inj h).symm
    · exact Or.inr (Option.some.inj h).symm

theorem waitJob_pids {status : WaitStatus} {report : Reports}
    (h : waitJob s j status report = some s') (k : JobId) :
    (s'.job k).list.map (·.pid) = (s.job k).list.map (·.pid) := by
  rw [waitJob_eq] at h
  rcases finishWait_cases h with ⟨-, first, rest, -, rfl⟩ | ⟨-, rfl | rfl⟩ <;>
    exact afterWait_pids s j k status report

/-! ### `fg` and `bg` -/

/-- The job `fg` or `bg` gets hold of. -/
def resumed (s : Sh) (argv : List CString) (garbage : Int) : Option JobId :=
  (resumePgid s argv garbage).bind (getJob s)

/-- A `fg` or `bg` that signals nobody, or has no job to signal, leaves all as it is. -/
theorem resume_cases {argv : List CString} {fg : Bool} {garbage : Int} {killOk : Bool}
    {status : WaitStatus} {report : Reports}
    (h : resume s argv fg garbage killOk status report = some s') :
    (s' = s ∧ (killOk = true → resumed s argv garbage = none)) ∨
      (killOk = true ∧ ∃ j, resumed s argv garbage = some j ∧ j ∈ s.head ∧
        (if fg then waitJob (markJobRunning s j) j status report
          else some (markJobRunning s j)) = some s') := by
  unfold resume at h
  unfold resumed
  cases hpgid : resumePgid s argv garbage with
  | none =>
      rw [hpgid] at h
      exact Or.inl ⟨(Option.some.inj h).symm, fun _ => rfl⟩
  | some pgid =>
      rw [hpgid] at h
      cases killOk with
      | false => exact Or.inl ⟨(Option.some.inj h).symm, fun hk => absurd hk (by simp)⟩
      | true =>
          simp only [if_true] at h
          cases hjob : getJob s pgid with
          | none =>
              rw [hjob] at h
              simp at h
          | some j =>
              rw [hjob] at h
              exact Or.inr ⟨rfl, j, hjob, List.mem_of_find?_eq_some hjob, h⟩

theorem markJobRunning_pids (s : Sh) (j k : JobId) :
    ((markJobRunning s j).job k).list.map (·.pid) = (s.job k).list.map (·.pid) := by
  by_cases hk : k = j
  · subst hk
    show (Function.update s.job k _ k).list.map (·.pid) = _
    rw [Function.update_self, List.map_map]
    rfl
  · show (Function.update s.job j _ k).list.map (·.pid) = _
    rw [Function.update_of_ne hk]

/-! ### `reap` -/

theorem recordStatus_pids (s : Sh) (j : JobId) (pid : Int) (status : WaitStatus) (k : JobId) :
    ((recordStatus s j pid status).job k).list.map (·.pid) = (s.job k).list.map (·.pid) := by
  by_cases hk : k = j
  · subst hk
    show (Function.update s.job k _ k).list.map (·.pid) = _
    rw [Function.update_self, List.map_map]
    refine List.map_congr_left fun ps _ => ?_
    show (if ps.pid = pid then changeStatus ps status else ps).pid = ps.pid
    split
    · exact changeStatus_pid ps status
    · rfl
  · show (Function.update s.job j _ k).list.map (·.pid) = _
    rw [Function.update_of_ne hk]

/-- What `update_process_status` does, if it finds a job. -/
theorem updateProcessStatus_cases {status : WaitStatus}
    (h : updateProcessStatus s pid status = some s') :
    ∃ cur, s.head.find? (fun i => (s.job i).hasPid pid) = some cur ∧
      ((((recordStatus s cur pid status).job cur).terminated = true ∧
          s' = { recordStatus s cur pid status with
            current := if s.current = some cur then nextJob s.head cur else s.current
            head := s.head.erase cur }) ∨
        s' = { recordStatus s cur pid status with current := some cur } ∨
        s' = recordStatus s cur pid status) := by
  unfold updateProcessStatus at h
  split at h
  · simp at h
  · rename_i cur hfind
    refine ⟨cur, hfind, ?_⟩
    simp only at h
    split at h
    · rename_i hterm
      exact Or.inl ⟨hterm, (Option.some.inj h).symm⟩
    · split at h
      · exact Or.inr (Or.inl (Option.some.inj h).symm)
      · exact Or.inr (Or.inr (Option.some.inj h).symm)

/-- **What one answer keeps, `reap` keeps.** -/
theorem reap_invariant {I : Sh → Prop}
    (hI : ∀ s pid e s', I s →
      updateProcessStatus { s with child := Function.update s.child pid none } pid (Event.status e)
        = some s' → I s') :
    ∀ (answers : List (Int × Event)) (s s' : Sh), I s → reap s answers = some s' → I s' := by
  intro answers
  induction answers with
  | nil =>
      intro s s' hs h
      cases h
      exact hs
  | cons a rest ih =>
      intro s s' hs h
      unfold reap at h
      obtain ⟨u, hu, hrest⟩ := Option.bind_eq_some_iff.mp h
      exact ih u s' (hI s a.1 a.2 u hs hu) hrest

theorem reap_pids (answers : List (Int × Event)) (s s' : Sh) (h : reap s answers = some s')
    (k : JobId) : (s'.job k).list.map (·.pid) = (s.job k).list.map (·.pid) := by
  refine reap_invariant
    (I := fun u => (u.job k).list.map (·.pid) = (s.job k).list.map (·.pid)) ?_ answers s s' rfl h
  intro u pid e u' hu hupd
  have hrec := fun cur => recordStatus_pids { u with child := Function.update u.child pid none } cur
    pid e.status k
  obtain ⟨cur, -, ⟨-, rfl⟩ | rfl | rfl⟩ := updateProcessStatus_cases hupd <;>
    exact (hrec cur).trans hu

theorem step_eq_some {op : Op} (h : step s op = some s') : op.Enabled s ∧ op.exec s = some s' := by
  unfold step at h
  split at h
  · rename_i hen
    exact ⟨hen, h⟩
  · simp at h

section Enabled

variable {pids : List Int} {async : Bool} {status : WaitStatus} {report : Reports}

/-- In the parent `fork` does not return 0. -/
theorem enabled_zero (h : (Op.execJob pids async status report).Enabled s) : 0 ∉ pids := by
  intro hzero
  have hpos := (h.2.2 0 hzero).resolve_left (by decide)
  exact absurd hpos.1 (Int.lt_irrefl 0)

/-- When no `fork` fails, the pids are all different. -/
theorem enabled_nodup (h : (Op.execJob pids async status report).Enabled s) (hforks : -1 ∉ pids) :
    pids.Nodup := by
  have hall : pids.filter (· ≠ -1) = pids := by
    refine List.filter_eq_self.mpr fun q hq => decide_eq_true ?_
    rintro rfl
    exact hforks hq
  rw [← hall]
  exact h.2.1

/-- No child has a pid that `fork` returns. -/
theorem enabled_free (h : (Op.execJob pids async status report).Enabled s) :
    ∀ q ∈ pids, q ≠ -1 → s.child q = none :=
  fun q hq hne => ((h.2.2 q hq).resolve_left hne).2

end Enabled

/-! ### The order of the list -/

/-- What is true of the list in every run. -/
structure Listed (s : Sh) : Prop where
  newest : s.head.Pairwise (· > ·)
  launched : ∀ j ∈ s.head, j < s.launched
  fresh : ∀ j, s.launched ≤ j → (s.job j).list = []

theorem start_listed : Listed start := by
  refine ⟨List.Pairwise.nil, ?_, fun _ _ => rfl⟩
  intro j hj
  simp [start] at hj

namespace Listed

theorem nodup (h : Listed s) : s.head.Nodup := h.newest.imp fun hgt => Nat.ne_of_gt hgt

theorem new_notMem (h : Listed s) : s.launched ∉ s.head := by
  intro hmem
  exact Nat.lt_irrefl _ (h.launched s.launched hmem)

/-- Jobs may come off the list and statuses may change. -/
theorem of_sublist (h : Listed s) (hhead : s'.head.Sublist s.head)
    (hlaunched : s'.launched = s.launched)
    (hpids : ∀ k, (s'.job k).list.map (·.pid) = (s.job k).list.map (·.pid)) : Listed s' := by
  refine ⟨h.newest.sublist hhead, ?_, ?_⟩
  · intro k hk
    rw [hlaunched]
    exact h.launched k (hhead.subset hk)
  · intro k hk
    rw [hlaunched] at hk
    have hnil := hpids k
    rw [h.fresh k hk] at hnil
    exact List.map_eq_nil_iff.mp hnil

theorem withJob (h : Listed s) (pids : List Int) : Listed (withJob s pids) := by
  refine ⟨?_, ?_, ?_⟩
  · exact List.pairwise_cons.mpr ⟨h.launched, h.newest⟩
  · intro k hk
    show k < s.launched + 1
    rcases List.mem_cons.mp hk with rfl | hold
    · exact Nat.lt_succ_self _
    · exact Nat.lt_succ_of_lt (h.launched k hold)
  · intro k hk
    have hk' : s.launched + 1 ≤ k := hk
    rw [withJob_job_of_ne s pids (Nat.ne_of_gt hk')]
    exact h.fresh k (Nat.le_of_succ_le hk')

theorem waitJob (h : Listed s) {status : WaitStatus} {report : Reports}
    (hw : waitJob s j status report = some s') : Listed s' := by
  have hafter : Listed (afterWait s j status report) :=
    h.of_sublist (List.Sublist.refl _) rfl fun k => afterWait_pids s j k status report
  rw [waitJob_eq] at hw
  rcases finishWait_cases hw with ⟨-, first, rest, hhead, rfl⟩ | ⟨-, rfl | rfl⟩
  · refine hafter.of_sublist ?_ rfl fun _ => rfl
    rw [hhead]
    exact List.sublist_cons_self first rest
  · exact hafter.of_sublist (List.Sublist.refl _) rfl fun _ => rfl
  · exact hafter

theorem updateProcessStatus (h : Listed s) {status : WaitStatus}
    (hu : updateProcessStatus s pid status = some s') : Listed s' := by
  obtain ⟨cur, -, ⟨-, rfl⟩ | rfl | rfl⟩ := updateProcessStatus_cases hu
  · exact h.of_sublist List.erase_sublist rfl (recordStatus_pids s cur pid status)
  · exact h.of_sublist (List.Sublist.refl _) rfl (recordStatus_pids s cur pid status)
  · exact h.of_sublist (List.Sublist.refl _) rfl (recordStatus_pids s cur pid status)

theorem step (h : Listed s) {op : Op} (hstep : step s op = some s') : Listed s' := by
  obtain ⟨hen, hexec⟩ := step_eq_some hstep
  cases op with
  | reap answers =>
      refine reap_invariant (fun s pid e s' hs hu => ?_) answers s s' h hexec
      have hchild : Listed { s with child := Function.update s.child pid none } :=
        hs.of_sublist (List.Sublist.refl _) rfl fun _ => rfl
      exact hchild.updateProcessStatus hu
  | execJob pids async status report =>
      have hnew := h.withJob pids
      have heq := execJob_eq s hen.1 (enabled_zero hen) async status report
      rw [show Op.exec s (.execJob pids async status report) = _ from heq] at hexec
      cases async with
      | true =>
          cases hexec
          exact hnew
      | false => exact hnew.waitJob hexec
  | resume argv fg garbage killOk status report =>
      rcases resume_cases hexec with ⟨rfl, -⟩ | ⟨-, j, -, -, hres⟩
      · exact h
      · have hmark : Listed (markJobRunning s j) :=
          h.of_sublist (List.Sublist.refl _) rfl (markJobRunning_pids s j)
        cases fg with
        | true => exact hmark.waitJob hres
        | false =>
            cases hres
            exact hmark

end Listed

end Shell
