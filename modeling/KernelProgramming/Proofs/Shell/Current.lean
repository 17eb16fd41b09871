/-
Does `current` point to a job on the list?

`update_process_status` sees to it: when it takes off the job `current` points to,
`current` becomes the next one.  `wait_job` takes the first job off the list and
leaves `current` alone.  After a command in the foreground that does no harm, for
the first job is then the new one, which `current` cannot point to yet.  After `fg`
the first job may well be the current one, and then `current` points to a job that
is no longer on the list.

It happens exactly when the job in the foreground counts as ended and the first job
of the list is the current one (`currentValid_iff`).
-/
import KernelProgramming.Proofs.Shell.JobList

namespace Shell

variable {s s' t : Sh} {j k : JobId} {pid : Int}

/-- `current` is null or a job on the list. -/
def CurrentValid (s : Sh) : Prop := ∀ c, s.current = some c → c ∈ s.head

/-! ### What `wait_job` makes of a job -/

/-- `WIFEXITED` or `WIFSIGNALED`. -/
def WaitStatus.ends : WaitStatus → Bool
  | .exited | .signaled => true
  | _ => false

theorem Event.status_ends (e : Event) : e.status.ends = e.ends := by
  cases e <;> rfl

theorem changeStatus_eq_terminated (ps : Process) (status : WaitStatus) :
    (changeStatus ps status).status = .terminated ↔ status.ends = true := by
  cases status <;> simp [changeStatus, WaitStatus.ends]

/-- What the calls of `waitpid` in the loop of `wait_job` report; nothing where they fail. -/
def waitAnswers (report : Reports) (child : Int → Option JobId) :
    List Process → List (Option Event)
  | [] => []
  | ps :: rest =>
      let answer := report.answer ps.pid rest.length
      ((child answer.1).map fun _ => answer.2) ::
        waitAnswers report (waitpid child answer.1 .other answer.2).1 rest

/-- Every call that succeeds reports an end, and if the first one fails then `status` happens to
look like one. -/
structure AllEnd (answers : List (Option Event)) (status : WaitStatus) : Prop where
  ends : ∀ e, some e ∈ answers → e.ends = true
  first : answers.head? = some none → status.ends = true

/-- Whether the process counts as ended after a call. -/
theorem waitpid_ends (child : Int → Option JobId) (pid : Int) (status : WaitStatus) (e : Event) :
    (waitpid child pid status e).2.ends = true ↔
      match child pid with
      | some _ => e.ends = true
      | none => status.ends = true := by
  unfold waitpid
  cases hchild : child pid with
  | none => rw [if_pos rfl]
  | some owner =>
      rw [if_neg (by simp)]
      split <;> rw [Event.status_ends]

/-- A call that fails leaves `status` as it was, and so once one process counts as ended those
whose calls fail later do too. -/
theorem waitLoop_terminated (report : Reports) : ∀ (l : List Process)
    (child : Int → Option JobId) (status : WaitStatus),
    (∀ ps ∈ (waitLoop report child status l).2, ps.status = .terminated) ↔
      AllEnd (waitAnswers report child l) status := by
  intro l
  induction l with
  | nil =>
      intro child status
      refine iff_of_true ?_ ⟨?_, ?_⟩ <;> simp [waitLoop, waitAnswers]
  | cons ps rest ih =>
      intro child status
      have hfirst := waitpid_ends child (report.answer ps.pid rest.length).1 status
        (report.answer ps.pid rest.length).2
      show (∀ qs ∈ changeStatus ps _ :: (waitLoop report _ _ rest).2, qs.status = .terminated) ↔
        AllEnd (Option.map _ _ :: waitAnswers report _ rest) status
      rw [List.forall_mem_cons, changeStatus_eq_terminated, ih, waitpid_child_fst status .other,
        hfirst]
      cases hchild : child (report.answer ps.pid rest.length).1 with
      | some owner =>
          constructor
          · rintro ⟨hps, hrest⟩
            refine ⟨?_, by simp⟩
            intro e he
            rcases List.mem_cons.mp he with heq | hlater
            · rw [Option.some.inj heq]
              exact hps
            · exact hrest.ends e hlater
          · intro hall
            have hps := hall.ends _ (List.mem_cons_self ..)
            refine ⟨hps, fun e he => hall.ends e (List.mem_cons_of_mem _ he), fun _ => ?_⟩
            rw [hfirst, hchild]
            exact hps
      | none =>
          constructor
          · rintro ⟨hps, hrest⟩
            refine ⟨?_, fun _ => hps⟩
            intro e he
            rcases List.mem_cons.mp he with heq | hlater
            · simp at heq
            · exact hrest.ends e hlater
          · intro hall
            have hps := hall.first rfl
            refine ⟨hps, fun e he => hall.ends e (List.mem_cons_of_mem _ he), fun _ => ?_⟩
            rw [hfirst, hchild]
            exact hps

/-- All the processes of the job are seen to end. -/
def SeenToEnd (s : Sh) (j : JobId) (status : WaitStatus) (report : Reports) : Prop :=
  AllEnd (waitAnswers report s.child (s.job j).list) status

theorem afterWait_terminated (s : Sh) (j : JobId) (status : WaitStatus) (report : Reports) :
    ((afterWait s j status report).job j).terminated = true ↔ SeenToEnd s j status report := by
  have hjob : (afterWait s j status report).job j = _ := Function.update_self ..
  rw [SeenToEnd, ← waitLoop_terminated report _ _ _, hjob]
  unfold Job.terminated
  rw [List.all_eq_true]
  simp only [decide_eq_true_eq]

/-- What is reported depends on the pids alone. -/
theorem waitAnswers_congr (report : Reports) : ∀ {l l' : List Process} (child : Int → Option JobId),
    l'.map (·.pid) = l.map (·.pid) → waitAnswers report child l' = waitAnswers report child l := by
  intro l
  induction l with
  | nil =>
      intro l' child h
      rw [List.map_eq_nil_iff.mp h]
  | cons ps rest ih =>
      intro l' child h
      obtain ⟨ps', rest', rfl, hpid, hrest⟩ := List.map_eq_cons_iff.mp h
      have hlen : rest'.length = rest.length := by
        simpa using congrArg List.length hrest
      unfold waitAnswers
      simp only [hpid, hlen, ih _ hrest]

/-- Marking a job does not change what it will come to. -/
theorem markJobRunning_seenToEnd (s : Sh) (j : JobId) {status : WaitStatus} {report : Reports} :
    SeenToEnd (markJobRunning s j) j status report ↔ SeenToEnd s j status report := by
  have hanswers := waitAnswers_congr report s.child (markJobRunning_pids s j j)
  unfold SeenToEnd
  rw [show (markJobRunning s j).child = s.child from rfl, hanswers]

/-- **What waiting does to `current`.** -/
theorem waitJob_valid (h : Listed s) (hv : CurrentValid s) (hj : j ∈ s.head) {status : WaitStatus}
    {report : Reports} (hw : waitJob s j status report = some s') :
    CurrentValid s' ↔ (SeenToEnd s j status report → s.current ≠ s.head.head?) := by
  rw [← afterWait_terminated]
  rw [waitJob_eq] at hw
  rcases finishWait_cases hw with ⟨hterm, first, rest, hhead, rfl⟩ | ⟨hterm, rfl | rfl⟩
  · have hhead' : s.head = first :: rest := hhead
    have hnot : first ∉ rest := by
      have hnodup := h.nodup
      rw [hhead'] at hnodup
      exact (List.nodup_cons.mp hnodup).1
    rw [hhead']
    constructor
    · intro hvalid _ heq
      exact hnot (hvalid first heq)
    · intro hne c hc
      have hmem := hv c hc
      rw [hhead'] at hmem
      rcases List.mem_cons.mp hmem with rfl | hold
      · exact absurd hc (hne hterm)
      · exact hold
  · refine iff_of_true ?_ fun hyes => by rw [hterm] at hyes; simp at hyes
    intro c hc
    obtain rfl : j = c := Option.some.inj hc
    exact hj
  · exact iff_of_true hv fun hyes => by rw [hterm] at hyes; simp at hyes

/-! ### The steps -/

theorem nextJob_mem : ∀ {l : List JobId} {c : JobId}, l.Nodup → nextJob l j = some c →
    c ∈ l.erase j := by
  intro l
  induction l with
  | nil =>
      intro c _ h
      simp [nextJob] at h
  | cons a rest ih =>
      intro c hnodup h
      rw [List.nodup_cons] at hnodup
      unfold nextJob at h
      split at h
      · rename_i ha
        rw [ha, List.erase_cons_head]
        exact List.mem_of_mem_head? h
      · rename_i ha
        rw [List.erase_cons_tail (by simpa using ha)]
        exact List.mem_cons_of_mem a (ih hnodup.2 h)

/-- `update_process_status` moves `current` on when it has to. -/
theorem updateProcessStatus_valid (h : Listed s) (hv : CurrentValid s) {status : WaitStatus}
    (hu : updateProcessStatus s pid status = some s') : CurrentValid s' := by
  obtain ⟨cur, hfind, ⟨-, rfl⟩ | rfl | rfl⟩ := updateProcessStatus_cases hu
  · intro c hc
    have hc' : (if s.current = some cur then nextJob s.head cur else s.current) = some c := hc
    split at hc'
    · exact nextJob_mem h.nodup hc'
    · rename_i hne
      have hcc : c ≠ cur := by
        rintro rfl
        exact hne hc'
      exact (List.mem_erase_of_ne hcc).mpr (hv c hc')
  · intro c hc
    obtain rfl : cur = c := Option.some.inj hc
    exact List.mem_of_find?_eq_some hfind
  · exact hv

theorem reap_valid (h : Listed s) (hv : CurrentValid s) {answers : List (Int × Event)}
    (hr : reap s answers = some s') : CurrentValid s' := by
  have hboth : Listed s' ∧ CurrentValid s' := by
    refine reap_invariant (I := fun u => Listed u ∧ CurrentValid u) (fun s pid e s' hs hu => ?_)
      answers s s' ⟨h, hv⟩ hr
    have hchild : Listed { s with child := Function.update s.child pid none } :=
      hs.1.of_sublist (List.Sublist.refl _) rfl fun _ => rfl
    exact ⟨hchild.updateProcessStatus hu, updateProcessStatus_valid hchild hs.2 hu⟩
  exact hboth.2

/-- A new job is nobody's current job. -/
theorem execJob_valid (h : Listed s) (hv : CurrentValid s) {pids : List Int} (hne : pids ≠ [])
    (hzero : 0 ∉ pids) {async : Bool} {status : WaitStatus} {report : Reports} (he : execJob s pids async status report = some s') :
    CurrentValid s' := by
  have hnew : CurrentValid (withJob s pids) := fun c hc => List.mem_cons_of_mem _ (hv c hc)
  rw [execJob_eq s hne hzero] at he
  cases async with
  | true =>
      cases he
      exact hnew
  | false =>
      refine (waitJob_valid (h.withJob pids) hnew (List.mem_cons_self ..) he).mpr ?_
      intro _ heq
      exact h.new_notMem (hv s.launched heq)

/-- `fg` does not see a job end while the current job is the first on the list. -/
def SparesCurrent (s : Sh) : Op → Prop
  | .resume argv true garbage true status report =>
      ∀ j, resumed s argv garbage = some j →
        SeenToEnd s j status report → s.current ≠ s.head.head?
  | _ => True

theorem step_valid {op : Op} (h : Listed s) (hv : CurrentValid s) (hstep : step s op = some s') :
    CurrentValid s' ↔ SparesCurrent s op := by
  obtain ⟨hen, hexec⟩ := step_eq_some hstep
  cases op with
  | reap answers => exact iff_of_true (reap_valid h hv hexec) trivial
  | execJob pids async status report =>
      exact iff_of_true (execJob_valid h hv hen.1 (enabled_zero hen) hexec) trivial
  | resume argv fg garbage killOk status report =>
      rcases resume_cases hexec with ⟨rfl, hnone⟩ | ⟨rfl, j, hj, hmem, hres⟩
      · refine iff_of_true hv ?_
        cases fg <;> cases killOk <;> try trivial
        intro j hj
        rw [hnone rfl] at hj
        simp at hj
      · cases fg with
        | false =>
            cases hres
            exact iff_of_true hv trivial
        | true =>
            have hmark : Listed (markJobRunning s j) :=
              h.of_sublist (List.Sublist.refl _) rfl (markJobRunning_pids s j)
            refine (waitJob_valid hmark hv hmem hres).trans ?_
            rw [markJobRunning_seenToEnd]
            show (_ → s.current ≠ s.head.head?) ↔ _
            refine ⟨fun himp i hi => ?_, fun hall => hall j hj⟩
            obtain rfl : j = i := Option.some.inj (hj.symm.trans hi)
            exact himp

/--
**The current job.**  All along a run `current` is null or on the list, exactly when no
`fg` of the run sees its job end while the first job of the list is the current one.
-/
theorem currentValid_iff {ops : List Op} (hrun : Runs.run step start ops = some t) :
    Runs.Always step CurrentValid start ops ↔ Runs.EachStep step SparesCurrent start ops := by
  have hstart : CurrentValid start := by
    intro c hc
    simp [start] at hc
  refine Runs.always_iff_eachStep (I := Listed) ?_ ?_ ops start t start_listed hstart hrun
  · intro s a s' h hstep
    exact h.step hstep
  · intro s a s' h hv hstep
    exact step_valid h hv hstep

/-- A command is stopped in the foreground, brought back with `fg`, and exits. -/
def stopAndFg : List Op :=
  [.reap [], .reap [], .execJob [10] false .other (.all .stopped),
    .reap [], .resume ["fg".toList] true 0 true .other (.all .exited)]

/-- It is off the list and still the current job. -/
theorem currentValid_fails_after_fg :
    ∃ t, Runs.run step start stopAndFg = some t ∧ ¬CurrentValid t := by
  refine ⟨_, rfl, ?_⟩
  intro hvalid
  exact absurd (hvalid 0 rfl) (by decide)

theorem currentValid_fgOnly : Runs.Always step CurrentValid start fgOnly := by
  have hrun : Runs.run step start fgOnly = some _ := rfl
  refine (currentValid_iff hrun).mpr ⟨trivial, fun s₁ h₁ => ⟨trivial, fun s₂ h₂ =>
    ⟨trivial, fun s₃ h₃ => ⟨?_, fun _ _ => trivial⟩⟩⟩⟩
  cases h₁
  cases h₂
  cases h₃
  intro j _ _ heq
  cases heq

end Shell
