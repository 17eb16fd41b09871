/-
Do the statuses say what `waitpid` has reported?

An observer notes, for every process, the events that `waitpid` has returned for it,
whether its job has been resumed with `bg` since, and whether it has ever been
written down as terminated.  The recorded statuses are compared with the notes.

Two functions write statuses that no event has reported.  `mark_job_running` writes 1
where its comment says running, and `bg` leaves it at that.  `wait_job` calls
`change_status` also when `waitpid` has failed, with whatever the variable `status`
holds, and after a `fork` that failed it asks for any child and does not write down
which one it was.  Where none of this happens, because nobody uses `bg`, nobody uses
`fg` on a job that has lost a process and no `fork` for a command in the foreground
fails, the statuses are right at all times.
-/
import KernelProgramming.Proofs.Shell.JobList

namespace Shell

variable {s s' : Sh} {j k : JobId} {pid : Int}

/-! ### The observer -/

/-- The successful calls of `waitpid` in the loop of `wait_job`: whose child it was, its pid,
and what was reported. -/
def waitReturns (report : Reports) (child : Int → Option JobId) :
    List Process → List (JobId × Int × Event)
  | [] => []
  | ps :: rest =>
      let answer := report.answer ps.pid rest.length
      let later := waitReturns report (waitpid child answer.1 .other answer.2).1 rest
      match child answer.1 with
      | none => later
      | some owner => (owner, answer) :: later

/-- In that loop a call fails, and the status of the process changes. -/
def failureChanges (report : Reports) (child : Int → Option JobId) (status : WaitStatus) :
    List Process → Bool
  | [] => false
  | ps :: rest =>
      let answer := report.answer ps.pid rest.length
      let w := waitpid child answer.1 status answer.2
      (decide (child answer.1 = none) && decide ((changeStatus ps w.2).status ≠ ps.status)) ||
        failureChanges report w.1 w.2 rest

/-- The job an operation waits for in the foreground, as it is when the loop starts. -/
def waitsFor (s : Sh) : Op → Option (Sh × JobId)
  | .execJob pids false _ _ => (launchLoop s 0 pids).map fun s' => (s', s.launched)
  | .resume argv true garbage true _ _ =>
      (resumed s argv garbage).map fun j => (markJobRunning s j, j)
  | _ => none

/-- The events an operation is told. -/
def returns (s : Sh) (op : Op) : List (JobId × Int × Event) :=
  match op, waitsFor s op with
  | .reap answers, _ => answers.filterMap fun a => (s.child a.1).map fun owner => (owner, a.1, a.2)
  | .execJob _ _ _ report, some (s', j) => waitReturns report s'.child (s'.job j).list
  | .resume _ _ _ _ _ report, some (s', j) => waitReturns report s'.child (s'.job j).list
  | _, none => []

/-- A call of `waitpid` fails and changes a status. -/
def failsLoudly (s : Sh) (op : Op) : Bool :=
  match op, waitsFor s op with
  | .execJob _ _ status report, some (s', j) =>
      failureChanges report s'.child status (s'.job j).list
  | .resume _ _ _ _ status report, some (s', j) =>
      failureChanges report s'.child status (s'.job j).list
  | _, _ => false

/-- The job a successful `bg` resumes. -/
def bgJob (s : Sh) : Op → Option JobId
  | .resume argv false garbage true _ _ => resumed s argv garbage
  | _ => none

/-- The shell and what has been noted, for every process of every job. -/
structure Observed where
  sh : Sh
  /-- What `waitpid` has returned for the process, the last event first. -/
  returned : JobId → Int → List Event
  /-- The job has been resumed with `bg`, and nothing has been returned since. -/
  resumed : JobId → Int → Bool
  /-- The process was on the list and its status was 2. -/
  terminated : JobId → Int → Bool
  failed : Bool

/-- The events of one process among those returned, the last one first. -/
def heard (calls : List (JobId × Int × Event)) (j : JobId) (pid : Int) : List Event :=
  ((calls.filter fun c => c.1 = j && c.2.1 = pid).map (·.2.2)).reverse

/-- One operation, observed. -/
def observe (o : Observed) (op : Op) (s' : Sh) : Observed where
  sh := s'
  returned j pid := heard (returns o.sh op) j pid ++ o.returned j pid
  resumed j pid :=
    (o.resumed j pid || (decide (bgJob o.sh op = some j) && (o.sh.job j).hasPid pid)) &&
      (heard (returns o.sh op) j pid).isEmpty
  terminated j pid :=
    o.terminated j pid ||
      (decide (j ∈ s'.head) &&
        (s'.job j).list.any fun ps => ps.pid = pid && ps.status = .terminated)
  failed := o.failed || failsLoudly o.sh op

def observedStep (o : Observed) (op : Op) : Option Observed :=
  (step o.sh op).map (observe o op)

def observedStart : Observed where
  sh := start
  returned _ _ := []
  resumed _ _ := false
  terminated _ _ := false
  failed := false

/-- The recorded statuses are those that have been reported. -/
structure Faithful (o : Observed) : Prop where
  terminated : ∀ j ∈ o.sh.head, ∀ ps ∈ (o.sh.job j).list,
    (∃ e ∈ o.returned j ps.pid, e.ends = true) → ps.status = .terminated
  once : ∀ j ∈ o.sh.head, ∀ ps ∈ (o.sh.job j).list,
    o.terminated j ps.pid = true → ps.status = .terminated
  running : ∀ j ∈ o.sh.head, ∀ ps ∈ (o.sh.job j).list, o.resumed j ps.pid = true →
    (∀ e ∈ o.returned j ps.pid, e.ends = false) → ps.status = .running
  stopped : ∀ j ∈ o.sh.head, ∀ ps ∈ (o.sh.job j).list, ps.status = .stopped →
    (o.returned j ps.pid).head? = some .stopped
  failed : o.failed = false

/-! ### The statuses and the children -/

/-- The process has not been collected.  Where `fork` has failed there is none to collect. -/
def Uncollected (s : Sh) (j : JobId) (pid : Int) : Prop := pid = -1 ∨ s.child pid = some j

theorem uncollected_iff (hpid : pid ≠ -1) : Uncollected s j pid ↔ s.child pid = some j :=
  or_iff_right hpid

theorem Uncollected.congr (h : s'.child pid = some k ↔ s.child pid = some j) :
    Uncollected s' k pid ↔ Uncollected s j pid := or_congr_right h

/-- A process on the list counts as terminated exactly when its child has been collected. -/
structure StatusOK (s : Sh) : Prop extends Listed s where
  pids : ∀ j, -1 ∉ (s.job j).list.map (·.pid) → ((s.job j).list.map (·.pid)).Nodup
  nobody : s.child (-1) = none
  owner : ∀ pid m, s.child pid = some m → pid ∈ (s.job m).list.map (·.pid) ∧
    ∀ i, pid ∈ (s.job i).list.map (·.pid) → i ≤ m
  status : ∀ j ∈ s.head, ∀ ps ∈ (s.job j).list,
    ps.status = .terminated ↔ ¬Uncollected s j ps.pid

theorem Untouched.no_failed (h : Untouched s j) (hnobody : s.child (-1) = none) :
    -1 ∉ (s.job j).list.map (·.pid) := by
  intro hmem
  obtain ⟨ps, hps, hpid⟩ := List.mem_map.mp hmem
  exact pid_ne hnobody (h ps hps) hpid

theorem StatusOK.nodup_untouched (h : StatusOK s) (hall : Untouched s j) :
    ((s.job j).list.map (·.pid)).Nodup := h.pids j (hall.no_failed h.nobody)

theorem start_statusOK : StatusOK start := by
  refine ⟨start_listed, fun _ _ => List.nodup_nil, rfl, ?_, ?_⟩
  · intro pid m hm
    simp [start] at hm
  · intro j hj
    simp [start] at hj

/-- Only jobs on the list matter, and `current` does not. -/
theorem StatusOK.of_head (h : StatusOK s) (hhead : s'.head.Sublist s.head) (hjob : s'.job = s.job)
    (hlaunched : s'.launched = s.launched) (hchild : s'.child = s.child) : StatusOK s' := by
  refine ⟨h.toListed.of_sublist hhead hlaunched fun k => by rw [hjob], ?_, ?_, ?_, ?_⟩
  · rw [hjob]
    exact h.pids
  · rw [hchild]
    exact h.nobody
  · rw [hchild, hjob]
    exact h.owner
  · intro k hk
    unfold Uncollected
    rw [hchild, hjob]
    exact h.status k (hhead.subset hk)

/-- The children of one job are collected and written down. -/
theorem StatusOK.recorded (h : StatusOK s) (hall : Untouched s j) (hr : Recorded j s s') :
    StatusOK s' := by
  refine ⟨h.toListed.of_sublist (by rw [hr.head]) hr.launched hr.pids_all, ?_,
    hr.child_none h.nobody, ?_, ?_⟩
  · intro k
    rw [hr.pids_all k]
    exact h.pids k
  · intro pid m hm
    rw [hr.pids_all m]
    simp only [hr.pids_all]
    exact h.owner pid m (hr.child_sub hm)
  · intro k hk ps hps
    rw [hr.head] at hk
    by_cases hkj : k = j
    · subst hkj
      obtain ⟨qs, hqs, hpid⟩ := exists_of_pids hr.pids hps
      have hne : ps.pid ≠ -1 := hpid ▸ pid_ne h.nobody (hall qs hqs)
      rw [hr.status ps hps, uncollected_iff hne]
    · rw [hr.others k hkj] at hps
      rw [h.status k hk ps hps, Uncollected.congr (hr.childOthers k hkj ps.pid)]

/-- Nothing of a new job has been collected. -/
theorem withJob_uncollected (s : Sh) {pids : List Int} {ps : Process}
    (hps : ps ∈ ((withJob s pids).job s.launched).list) :
    Uncollected (withJob s pids) s.launched ps.pid := by
  by_cases hpid : ps.pid = -1
  · exact Or.inl hpid
  · exact Or.inr (if_pos ⟨(mem_withJob_list hps).1, hpid⟩)

/-- A new job, be its processes there or not. -/
theorem StatusOK.withJob (h : StatusOK s) {pids : List Int}
    (hnodup : -1 ∉ pids → pids.Nodup) (hfree : ∀ q ∈ pids, q ≠ -1 → s.child q = none) :
    StatusOK (withJob s pids) := by
  refine ⟨h.toListed.withJob pids, ?_, ?_, ?_, ?_⟩
  · intro k hk
    by_cases hkj : k = s.launched
    · rw [hkj, withJob_pids, List.mem_reverse] at hk
      rw [hkj, withJob_pids]
      exact List.nodup_reverse.mpr (hnodup hk)
    · rw [withJob_job_of_ne s pids hkj] at hk ⊢
      exact h.pids k hk
  · exact (if_neg fun hboth => hboth.2 rfl).trans h.nobody
  · intro q m hm
    have hm' : (if q ∈ pids ∧ q ≠ -1 then some s.launched else s.child q) = some m := hm
    by_cases hq : q ∈ pids ∧ q ≠ -1
    · rw [if_pos hq] at hm'
      obtain rfl : s.launched = m := Option.some.inj hm'
      refine ⟨by rw [withJob_pids, List.mem_reverse]; exact hq.1, ?_⟩
      intro i hi
      by_contra hlt
      have hgt : s.launched < i := Nat.lt_of_not_le hlt
      rw [withJob_job_of_ne s pids (Nat.ne_of_gt hgt), h.fresh i (Nat.le_of_lt hgt)] at hi
      simp at hi
    · rw [if_neg hq] at hm'
      obtain ⟨hpid, hnewest⟩ := h.owner q m hm'
      have hne : ∀ i, q ∈ ((Shell.withJob s pids).job i).list.map (·.pid) → i ≠ s.launched := by
        rintro i hi rfl
        rw [withJob_pids, List.mem_reverse] at hi
        exact hq ⟨hi, pid_ne h.nobody hm'⟩
      have hm_ne : m ≠ s.launched := by
        rintro rfl
        rw [h.fresh s.launched (Nat.le_refl _)] at hpid
        simp at hpid
      refine ⟨by rw [withJob_job_of_ne s pids hm_ne]; exact hpid, ?_⟩
      intro i hi
      have hi' := hi
      rw [withJob_job_of_ne s pids (hne i hi)] at hi'
      exact hnewest i hi'
  · intro k hk ps hps
    by_cases hkj : k = s.launched
    · subst hkj
      refine iff_of_false ?_ fun hgone => hgone (withJob_uncollected s hps)
      rw [(mem_withJob_list hps).2]
      simp
    · rw [withJob_job_of_ne s pids hkj] at hps
      rw [h.status k (List.mem_of_ne_of_mem hkj hk) ps hps,
        Uncollected.congr (withJob_child_old hfree hkj ps.pid)]

/-! ### `reap` -/

/-- If the job a child was forked for is on the list, it is the one that is found: no newer
job has the pid. -/
theorem StatusOK.find_owner (h : StatusOK s) {m cur : JobId} (hm : s.child pid = some m)
    (hhead : m ∈ s.head) (hfind : s.head.find? (fun i => (s.job i).hasPid pid) = some cur) :
    cur = m := by
  obtain ⟨hpid, hnewest⟩ := h.owner pid m hm
  obtain ⟨hcur, pre, post, hsplit, hpre⟩ := List.find?_eq_some_iff_append.mp hfind
  have hle : cur ≤ m := hnewest cur (hasPid_iff.mp hcur)
  have hsorted := h.newest
  rw [hsplit] at hhead hsorted
  rcases List.mem_append.mp hhead with hin | hin
  · have hnot := hpre m hin
    rw [hasPid_iff.mpr hpid] at hnot
    simp at hnot
  · rcases List.mem_cons.mp hin with heq | hpost
    · exact heq.symm
    · have hgt := (List.pairwise_cons.mp (List.pairwise_append.mp hsorted).2.1).1 m hpost
      exact absurd hgt (Nat.not_lt.mpr hle)

/-- On the list of `s'` are jobs of `s`, with the statuses they had, or terminated. -/
def Kept (s s' : Sh) : Prop :=
  ∀ j ∈ s'.head, j ∈ s.head ∧
    ∀ ps ∈ (s'.job j).list, ps.status = .terminated ∨ ps ∈ (s.job j).list

theorem Kept.trans {s'' : Sh} (h : Kept s s') (h' : Kept s' s'') : Kept s s'' := by
  intro j hj
  obtain ⟨hmem, hstatus⟩ := h' j hj
  refine ⟨(h j hmem).1, ?_⟩
  intro ps hps
  rcases hstatus ps hps with hterm | hold
  · exact Or.inl hterm
  · exact (h j hmem).2 ps hold

/-- A process after the status of `pid` has been recorded in the job `cur`. -/
theorem mem_recordStatus {cur i : JobId} {e : Event} (he : e.ends = true) {ps : Process}
    (hps : ps ∈ ((recordStatus s cur pid e.status).job i).list) :
    (i = cur ∧ ps.pid = pid ∧ ps.status = .terminated) ∨
      (ps ∈ (s.job i).list ∧ (i = cur → ps.pid ≠ pid)) := by
  by_cases hi : i = cur
  · subst hi
    have hjob : (recordStatus s i pid e.status).job i = _ := Function.update_self ..
    rw [hjob] at hps
    obtain ⟨qs, hqs, rfl⟩ := List.mem_map.mp hps
    by_cases hq : qs.pid = pid
    · rw [if_pos hq]
      exact Or.inl ⟨rfl, by rw [changeStatus_pid, hq], (changeStatus_terminated qs e).mpr he⟩
    · rw [if_neg hq]
      exact Or.inr ⟨hqs, fun _ => hq⟩
  · have hjob : (recordStatus s cur pid e.status).job i = s.job i := Function.update_of_ne hi ..
    rw [hjob] at hps
    exact Or.inr ⟨hps, fun heq => absurd heq hi⟩

/-- The job that is found gets the status; it is the job of the child, or an older one in
which the pid belongs to a process that has ended. -/
theorem recordStatus_statusOK (h : StatusOK s) {m cur : JobId} (hm : s.child pid = some m)
    (hfind : s.head.find? (fun i => (s.job i).hasPid pid) = some cur) {e : Event}
    (he : e.ends = true) :
    StatusOK (recordStatus { s with child := Function.update s.child pid none } cur pid e.status) ∧
      Kept s
        (recordStatus { s with child := Function.update s.child pid none } cur pid e.status) := by
  have hpids := recordStatus_pids { s with child := Function.update s.child pid none } cur pid
    e.status
  refine ⟨⟨h.toListed.of_sublist (List.Sublist.refl _) rfl hpids, ?_, ?_, ?_, ?_⟩, ?_⟩
  · intro i
    rw [hpids i]
    exact h.pids i
  · exact (Function.update_of_ne (pid_ne h.nobody hm).symm ..).trans h.nobody
  · intro q i hi
    have hi' : Function.update s.child pid none q = some i := hi
    have hq : q ≠ pid := by
      rintro rfl
      rw [Function.update_self] at hi'
      simp at hi'
    rw [Function.update_of_ne hq] at hi'
    rw [hpids i]
    simp only [hpids]
    exact h.owner q i hi'
  · intro i hi ps hps
    show _ ↔ ¬(ps.pid = -1 ∨ Function.update s.child pid none ps.pid = some i)
    rcases mem_recordStatus he hps with ⟨-, hq, hterm⟩ | ⟨hold, hne⟩
    · rw [hq, Function.update_self, hterm]
      simp [pid_ne h.nobody hm]
    · rw [h.status i hi ps hold]
      unfold Uncollected
      by_cases hq : ps.pid = pid
      · -- The pid belongs to another process, which has ended before.
        have him : i ≠ m := by
          rintro rfl
          exact hne (h.find_owner hm hi hfind).symm hq
        rw [hq, Function.update_self, hm]
        simp [Ne.symm him]
      · rw [Function.update_of_ne hq]
  · intro i hi
    refine ⟨hi, ?_⟩
    intro ps hps
    rcases mem_recordStatus he hps with ⟨-, -, hterm⟩ | ⟨hold, -⟩
    · exact Or.inl hterm
    · exact Or.inr hold

theorem updateProcessStatus_statusOK (h : StatusOK s) {m : JobId} (hm : s.child pid = some m)
    {e : Event} (he : e.ends = true)
    (hu : updateProcessStatus { s with child := Function.update s.child pid none } pid e.status
      = some s') :
    StatusOK s' ∧ Kept s s' ∧ s'.child = Function.update s.child pid none ∧
      s'.launched = s.launched := by
  obtain ⟨cur, hfind, hcases⟩ := updateProcessStatus_cases hu
  obtain ⟨hok, hkept⟩ := recordStatus_statusOK h hm hfind he
  rcases hcases with ⟨-, rfl⟩ | rfl | rfl
  · have hsub : (s.head.erase cur).Sublist s.head := List.erase_sublist
    exact ⟨hok.of_head hsub rfl rfl rfl, fun i hi => hkept i (hsub.subset hi), rfl, rfl⟩
  · exact ⟨hok.of_head (List.Sublist.refl _) rfl rfl rfl, hkept, rfl, rfl⟩
  · exact ⟨hok, hkept, rfl, rfl⟩

/-- **What `reap` has collected is written down.** -/
theorem reap_statusOK : ∀ (answers : List (Int × Event)) (s s' : Sh), StatusOK s →
    (answers.map (·.1)).Nodup → (∀ a ∈ answers, s.child a.1 ≠ none ∧ a.2.ends = true) →
    reap s answers = some s' →
    StatusOK s' ∧ Kept s s' ∧ s'.launched = s.launched ∧
      ∀ q, s'.child q = if q ∈ answers.map (·.1) then none else s.child q := by
  intro answers
  induction answers with
  | nil =>
      intro s s' h _ _ hreap
      cases hreap
      refine ⟨h, ?_, rfl, fun _ => by simp⟩
      intro j hj
      exact ⟨hj, fun ps hps => Or.inr hps⟩
  | cons a rest ih =>
      intro s s' h hnodup hall hreap
      rw [List.map_cons, List.nodup_cons] at hnodup
      obtain ⟨hchild, hends⟩ := hall a (List.mem_cons_self ..)
      obtain ⟨m, hm⟩ := Option.ne_none_iff_exists'.mp hchild
      unfold reap at hreap
      obtain ⟨u, hu, hrest⟩ := Option.bind_eq_some_iff.mp hreap
      obtain ⟨huok, hukept, huchild, hulaunched⟩ := updateProcessStatus_statusOK h hm hends hu
      have hlater : ∀ b ∈ rest, u.child b.1 ≠ none ∧ b.2.ends = true := by
        intro b hb
        have hne : b.1 ≠ a.1 := by
          intro heq
          exact hnodup.1 (heq ▸ List.mem_map_of_mem hb)
        rw [huchild, Function.update_of_ne hne]
        exact hall b (List.mem_cons_of_mem a hb)
      obtain ⟨hok, hkept, hlaunched, hleft⟩ := ih u s' huok hnodup.2 hlater hrest
      refine ⟨hok, hukept.trans hkept, hlaunched.trans hulaunched, ?_⟩
      intro q
      rw [hleft q, huchild, List.map_cons]
      by_cases hq : q = a.1
      · rw [hq, Function.update_self, if_pos (List.mem_cons_self ..), ite_self]
      · rw [Function.update_of_ne hq]
        exact if_congr (List.mem_cons.trans (or_iff_right hq)).symm rfl rfl

/-! ### `wait_job` -/

/-- When all the processes are there to be waited for, every call succeeds and reports the
process it should, and no status changes without a report. -/
theorem waitReturns_eq (report : Reports) : ∀ (l : List Process) (child : Int → Option JobId)
    (status : WaitStatus), child (-1) = none → (l.map (·.pid)).Nodup →
    (∀ ps ∈ l, child ps.pid = some j) →
    waitReturns report child l = l.map (fun ps => (j, ps.pid, report.event ps.pid)) ∧
      failureChanges report child status l = false := by
  intro l
  induction l with
  | nil =>
      intro child status _ _ _
      exact ⟨rfl, rfl⟩
  | cons ps rest ih =>
      intro child status hnobody hnodup hall
      rw [List.map_cons, List.nodup_cons] at hnodup
      have hps := hall ps (List.mem_cons_self ..)
      have hanswer := report.answer_pid (pid_ne hnobody hps) rest.length
      have hlater : ∀ qs ∈ rest,
          (waitpid child ps.pid status (report.event ps.pid)).1 qs.pid = some j := by
        intro qs hqs
        rw [waitpid_child hps]
        have hne : qs.pid ≠ ps.pid := by
          intro heq
          exact hnodup.1 (heq ▸ List.mem_map_of_mem hqs)
        show (if qs.pid = ps.pid ∧ (report.event ps.pid).ends = true then none
          else child qs.pid) = some j
        rw [if_neg fun hboth => hne hboth.1]
        exact hall qs (List.mem_cons_of_mem ps hqs)
      have hnobody' : (waitpid child ps.pid status (report.event ps.pid)).1 (-1) = none := by
        rw [waitpid_child hps]
        simp only [hnobody, ite_self]
      obtain ⟨hret, hfail⟩ :=
        ih _ (waitpid child ps.pid status (report.event ps.pid)).2 hnobody' hnodup.2 hlater
      refine ⟨?_, ?_⟩
      · unfold waitReturns
        simp only [hanswer]
        rw [waitpid_child_fst .other status, hret, hps, List.map_cons]
      · unfold failureChanges
        simp only [hanswer]
        rw [hps]
        simpa using hfail

/-- Waiting for a job none of whose processes has been collected. -/
theorem waitJob_untouched (h : StatusOK s) (hall : Untouched s j) {status : WaitStatus}
    {report : Reports} (hw : waitJob s j status report = some s') :
    StatusOK s' ∧ s'.launched = s.launched ∧ s'.child = (waited s j report.event).child ∧
      ∀ i ∈ s'.head, i ∈ s.head ∧ (s'.job i).list = ((waited s j report.event).job i).list := by
  have heq : afterWait s j status report = waited s j report.event := by
    unfold afterWait
    rw [waitLoop_eq report (s.job j).list s.child status h.nobody (h.nodup_untouched hall) hall]
    rfl
  have hok := h.recorded hall (waited_recorded hall report.event)
  rw [waitJob_eq, heq] at hw
  rcases finishWait_cases hw with ⟨-, first, rest, hhead, rfl⟩ | ⟨-, rfl | rfl⟩
  · have hsub : rest.Sublist (waited s j report.event).head := by
      rw [hhead]
      exact List.sublist_cons_self first rest
    exact ⟨hok.of_head hsub rfl rfl rfl, rfl, rfl, fun i hi => ⟨hsub.subset hi, rfl⟩⟩
  · exact ⟨hok.of_head (List.Sublist.refl _) rfl rfl rfl, rfl, rfl, fun i hi => ⟨hi, rfl⟩⟩
  · exact ⟨hok, rfl, rfl, fun i hi => ⟨hi, rfl⟩⟩

/-! ### The notes -/

/-- The notes agree with the children and the statuses. -/
structure NotesOK (o : Observed) : Prop extends StatusOK o.sh where
  ended : ∀ j, ∀ ps ∈ (o.sh.job j).list,
    (∃ e ∈ o.returned j ps.pid, e.ends = true) ↔ ¬Uncollected o.sh j ps.pid
  stopped : ∀ j ∈ o.sh.head, ∀ ps ∈ (o.sh.job j).list, ps.status = .stopped →
    (o.returned j ps.pid).head? = some .stopped
  once : ∀ j pid, o.terminated j pid = true → j < o.sh.launched ∧ ¬Uncollected o.sh j pid
  unheard : ∀ j pid, o.sh.launched ≤ j → o.returned j pid = []
  resumed : ∀ j pid, o.resumed j pid = false
  failed : o.failed = false

theorem NotesOK.faithful {o : Observed} (h : NotesOK o) : Faithful o := by
  refine ⟨?_, ?_, ?_, h.stopped, h.failed⟩
  · intro j hj ps hps hends
    exact (h.status j hj ps hps).mpr ((h.ended j ps hps).mp hends)
  · intro j hj ps hps hterm
    exact (h.status j hj ps hps).mpr (h.once j ps.pid hterm).2
  · intro j _ ps _ hres
    rw [h.resumed] at hres
    simp at hres

theorem observedStart_ok : NotesOK observedStart := by
  refine ⟨start_statusOK, ?_, ?_, ?_, fun _ _ _ => rfl, fun _ _ => rfl, rfl⟩
  · intro j ps hps
    simp [observedStart, start] at hps
  · intro j hj
    simp [observedStart, start] at hj
  · intro j pid hterm
    simp [observedStart] at hterm

theorem mem_heard {calls : List (JobId × Int × Event)} {e : Event} :
    e ∈ heard calls j pid ↔ (j, pid, e) ∈ calls := by
  unfold heard
  rw [List.mem_reverse, List.mem_map]
  constructor
  · rintro ⟨⟨i, q, e'⟩, hmem, rfl⟩
    obtain ⟨hc, heq⟩ := List.mem_filter.mp hmem
    simp only [Bool.and_eq_true, decide_eq_true_eq] at heq
    obtain ⟨rfl, rfl⟩ := heq
    exact hc
  · intro hc
    exact ⟨(j, pid, e), List.mem_filter.mpr ⟨hc, by simp⟩, rfl⟩

theorem heard_nil (j : JobId) (pid : Int) : heard [] j pid = [] := rfl

theorem heard_wait (event : Int → Event) {l : List Process} (hnodup : (l.map (·.pid)).Nodup)
    (i : JobId) (pid : Int) :
    heard (l.map fun ps => (j, ps.pid, event ps.pid)) i pid
      = if i = j ∧ pid ∈ l.map (·.pid) then [event pid] else [] := by
  induction l with
  | nil => simp [heard_nil]
  | cons ps rest ih =>
      rw [List.map_cons, List.nodup_cons] at hnodup
      have hrest := ih hnodup.2
      unfold heard at hrest ⊢
      rw [List.map_cons, List.filter_cons, List.map_cons]
      by_cases hself : i = j ∧ pid = ps.pid
      · obtain ⟨rfl, rfl⟩ := hself
        rw [if_pos (by simp), List.map_cons, List.reverse_cons, hrest,
          if_neg fun hin => hnodup.1 hin.2, if_pos ⟨rfl, List.mem_cons_self ..⟩]
        rfl
      · rw [if_neg ?_, hrest]
        · refine if_congr ?_ rfl rfl
          rw [List.mem_cons]
          constructor
          · exact fun hin => ⟨hin.1, Or.inr hin.2⟩
          · rintro ⟨hi, heq | hin⟩
            · exact absurd ⟨hi, heq⟩ hself
            · exact ⟨hi, hin⟩
        · intro hboth
          simp only [Bool.and_eq_true, decide_eq_true_eq] at hboth
          exact hself ⟨hboth.1.symm, hboth.2.symm⟩

/-- What has to be checked of an operation that resumes nothing with `bg`. -/
theorem NotesOK.after {o : Observed} (h : NotesOK o) {op : Op} (hbg : bgJob o.sh op = none)
    (hloud : failsLoudly o.sh op = false) (hok : StatusOK s')
    (hended : ∀ j, ∀ ps ∈ (s'.job j).list,
      (∃ e ∈ heard (returns o.sh op) j ps.pid ++ o.returned j ps.pid, e.ends = true) ↔
        ¬Uncollected s' j ps.pid)
    (hstopped : ∀ j ∈ s'.head, ∀ ps ∈ (s'.job j).list, ps.status = .stopped →
      (heard (returns o.sh op) j ps.pid ++ o.returned j ps.pid).head? = some .stopped)
    (honce : ∀ j pid, o.terminated j pid = true → j < s'.launched ∧ ¬Uncollected s' j pid)
    (hunheard : ∀ j pid, s'.launched ≤ j →
      heard (returns o.sh op) j pid ++ o.returned j pid = []) :
    NotesOK (observe o op s') := by
  refine ⟨hok, hended, hstopped, ?_, hunheard, ?_, ?_⟩
  · intro j pid hterm
    have hterm' : (o.terminated j pid || (decide (j ∈ s'.head) &&
        (s'.job j).list.any fun ps => ps.pid = pid && ps.status = .terminated)) = true := hterm
    rw [Bool.or_eq_true, Bool.and_eq_true, decide_eq_true_eq, List.any_eq_true] at hterm'
    rcases hterm' with hold | ⟨hj, ps, hps, hnow⟩
    · exact honce j pid hold
    · simp only [Bool.and_eq_true, decide_eq_true_eq] at hnow
      refine ⟨hok.launched j hj, ?_⟩
      rw [← hnow.1]
      exact (hok.status j hj ps hps).mp hnow.2
  · intro j pid
    show ((o.resumed j pid || (decide (bgJob o.sh op = some j) && _)) && _) = false
    rw [h.resumed, hbg]
    simp
  · show (o.failed || failsLoudly o.sh op) = false
    rw [h.failed, hloud]
    rfl

/-! ### The steps -/

variable {o : Observed}

/-- An operation that is told nothing and changes nothing. -/
theorem NotesOK.unchanged (h : NotesOK o) {op : Op} (hbg : bgJob o.sh op = none)
    (hwaits : waitsFor o.sh op = none) (hret : returns o.sh op = []) :
    NotesOK (observe o op o.sh) := by
  have hloud : failsLoudly o.sh op = false := by
    unfold failsLoudly
    rw [hwaits]
    split <;> simp_all
  refine h.after hbg hloud h.toStatusOK ?_ ?_ h.once ?_
  · rw [hret]
    exact h.ended
  · rw [hret]
    exact h.stopped
  · rw [hret]
    exact h.unheard

theorem ends_append {new old : List Event} :
    (∃ e ∈ new ++ old, e.ends = true) ↔
      (∃ e ∈ new, e.ends = true) ∨ ∃ e ∈ old, e.ends = true := by
  simp only [List.mem_append, or_and_right, exists_or]

theorem mem_heard_reap {answers : List (Int × Event)} {e : Event} :
    e ∈ heard (returns s (.reap answers)) j pid ↔ (pid, e) ∈ answers ∧ s.child pid = some j := by
  rw [mem_heard]
  show (j, pid, e) ∈ answers.filterMap _ ↔ _
  rw [List.mem_filterMap]
  constructor
  · rintro ⟨a, ha, heq⟩
    obtain ⟨owner, hown, hpair⟩ := Option.map_eq_some_iff.mp heq
    simp only [Prod.mk.injEq] at hpair
    obtain ⟨rfl, rfl, rfl⟩ := hpair
    exact ⟨ha, hown⟩
  · rintro ⟨ha, hown⟩
    exact ⟨(pid, e), ha, by rw [hown]; rfl⟩

theorem ends_heard_reap {answers : List (Int × Event)}
    (hends : ∀ a ∈ answers, a.2.ends = true) :
    (∃ e ∈ heard (returns s (.reap answers)) j pid, e.ends = true) ↔
      pid ∈ answers.map (·.1) ∧ s.child pid = some j := by
  constructor
  · rintro ⟨e, he, -⟩
    obtain ⟨ha, hown⟩ := mem_heard_reap.mp he
    exact ⟨List.mem_map_of_mem ha, hown⟩
  · rintro ⟨hin, hown⟩
    obtain ⟨a, ha, rfl⟩ := List.mem_map.mp hin
    exact ⟨a.2, mem_heard_reap.mpr ⟨ha, hown⟩, hends a ha⟩

theorem heard_reap_eq_nil {answers : List (Int × Event)}
    (h : pid ∈ answers.map (·.1) → s.child pid ≠ some j) :
    heard (returns s (.reap answers)) j pid = [] := by
  refine List.eq_nil_iff_forall_not_mem.mpr fun e he => ?_
  obtain ⟨ha, hown⟩ := mem_heard_reap.mp he
  exact h (List.mem_map_of_mem ha) hown

theorem reap_notes (h : NotesOK o) {answers : List (Int × Event)}
    (hen : (Op.reap answers).Enabled o.sh) (hreap : reap o.sh answers = some s') :
    NotesOK (observe o (.reap answers) s') := by
  obtain ⟨hok, hkept, hlaunched, hchild⟩ :=
    reap_statusOK answers o.sh s' h.toStatusOK hen.1 hen.2 hreap
  have hnobody : -1 ∉ answers.map (·.1) := by
    intro hin
    obtain ⟨a, ha, hpid⟩ := List.mem_map.mp hin
    exact (hen.2 a ha).1 (hpid ▸ h.nobody)
  have hless : ∀ j pid, Uncollected s' j pid ↔
      Uncollected o.sh j pid ∧ pid ∉ answers.map (·.1) := by
    intro j pid
    unfold Uncollected
    rw [hchild pid]
    by_cases hin : pid ∈ answers.map (·.1)
    · have hpid : pid ≠ -1 := fun heq => hnobody (heq ▸ hin)
      simp [hin, hpid]
    · simp [hin]
  refine h.after rfl rfl hok ?_ ?_ ?_ ?_
  · intro j ps hps
    obtain ⟨qs, hqs, hpid⟩ := exists_of_pids (reap_pids answers o.sh s' hreap j) hps
    have hown : qs.pid ∈ answers.map (·.1) →
        (o.sh.child qs.pid = some j ↔ Uncollected o.sh j qs.pid) := by
      intro hin
      exact (uncollected_iff fun heq => hnobody (heq ▸ hin)).symm
    rw [← hpid, ends_append, ends_heard_reap fun a ha => (hen.2 a ha).2, h.ended j qs hqs, hless]
    tauto
  · intro j hj ps hps hstop
    obtain ⟨hj', hstatus⟩ := hkept j hj
    have hrunning : ps.status ≠ .terminated := by
      rw [hstop]
      simp
    have halive : Uncollected s' j ps.pid :=
      not_not.mp fun hgone => hrunning ((hok.status j hj ps hps).mpr hgone)
    rw [heard_reap_eq_nil fun hin => absurd hin ((hless j ps.pid).mp halive).2, List.nil_append]
    exact h.stopped j hj' ps ((hstatus ps hps).resolve_left hrunning) hstop
  · intro j pid hterm
    obtain ⟨hlt, hgone⟩ := h.once j pid hterm
    refine ⟨by rw [hlaunched]; exact hlt, ?_⟩
    intro hback
    exact hgone ((hless j pid).mp hback).1
  · intro j pid hj
    rw [hlaunched] at hj
    have hnone : o.sh.child pid ≠ some j := by
      intro hown
      have hmem := (h.owner pid j hown).1
      rw [h.fresh j hj] at hmem
      simp at hmem
    rw [heard_reap_eq_nil fun _ => hnone, List.nil_append]
    exact h.unheard j pid hj

/-- The notes fit a shell that is about to wait for `j`, whatever the statuses of `j` are. -/
structure NotesBefore (j : JobId) (o : Observed) (s : Sh) : Prop extends StatusOK s where
  ended : ∀ i, ∀ ps ∈ (s.job i).list,
    (∃ e ∈ o.returned i ps.pid, e.ends = true) ↔ ¬Uncollected s i ps.pid
  stopped : ∀ i ∈ s.head, i ≠ j → ∀ ps ∈ (s.job i).list, ps.status = .stopped →
    (o.returned i ps.pid).head? = some .stopped
  once : ∀ i pid, o.terminated i pid = true → i < s.launched ∧ ¬Uncollected s i pid
  unheard : ∀ i pid, s.launched ≤ i → o.returned i pid = []

/-- What `waitpid` has returned is the end of a process exactly when the child is gone. -/
theorem NotesBefore.ended_after (hb : NotesBefore j o s) (hall : Untouched s j)
    (event : Int → Event) (i : JobId) : ∀ ps ∈ (s.job i).list,
      (∃ e ∈ (if i = j ∧ ps.pid ∈ (s.job j).list.map (·.pid) then [event ps.pid] else []) ++
          o.returned i ps.pid, e.ends = true) ↔
        ¬Uncollected (waited s j event) i ps.pid := by
  intro ps hps
  rw [ends_append, hb.ended i ps hps]
  show _ ↔ ¬(ps.pid = -1 ∨ (if ps.pid ∈ (s.job j).list.map (·.pid) ∧
    (event ps.pid).ends = true then none else s.child ps.pid) = some i)
  unfold Uncollected
  by_cases hin : ps.pid ∈ (s.job j).list.map (·.pid)
  · -- The pid belongs to a process of `j` now, whoever had it before.
    obtain ⟨qs, hqs, hpid⟩ := List.mem_map.mp hin
    have hown := hall qs hqs
    have hreal := pid_ne hb.nobody hown
    rw [hpid] at hown hreal
    by_cases hi : i = j
    · subst hi
      by_cases hends : (event ps.pid).ends = true <;> simp [hin, hends, hown, hreal]
    · have hne : j ≠ i := Ne.symm hi
      by_cases hends : (event ps.pid).ends = true <;> simp [hin, hends, hown, hi, hne, hreal]
  · simp [hin]

/-- The processes that `wait_job` marks as stopped have been reported as stopped. -/
theorem stopped_waited {event : Int → Event} {ps : Process}
    (hps : ps ∈ ((waited s j event).job j).list) (hstop : ps.status = .stopped) :
    ps.pid ∈ (s.job j).list.map (·.pid) ∧ event ps.pid = .stopped := by
  have hjob : (waited s j event).job j = _ := Function.update_self ..
  rw [hjob] at hps
  obtain ⟨qs, hqs, rfl⟩ := List.mem_map.mp hps
  rw [changeStatus_pid]
  refine ⟨List.mem_map_of_mem hqs, ?_⟩
  cases hev : event qs.pid with
  | stopped => rfl
  | exited =>
      rw [hev] at hstop
      simp [changeStatus, Event.status] at hstop
  | signaled =>
      rw [hev] at hstop
      simp [changeStatus, Event.status] at hstop

/-- **Waiting for a job** that has lost no process leaves the right statuses. -/
theorem wait_notes (h : NotesOK o) (hb : NotesBefore j o s) (hall : Untouched s j) {op : Op}
    (hbg : bgJob o.sh op = none) {status : WaitStatus} {report : Reports}
    (hret : returns o.sh op = waitReturns report s.child (s.job j).list)
    (hloud : failsLoudly o.sh op = failureChanges report s.child status (s.job j).list)
    (hw : waitJob s j status report = some s') : NotesOK (observe o op s') := by
  obtain ⟨hcalls, hquiet⟩ := waitReturns_eq report (s.job j).list s.child status hb.nobody
    (hb.nodup_untouched hall) hall
  obtain ⟨hok, hlaunched, hchild, hlists⟩ := waitJob_untouched hb.toStatusOK hall hw
  have hheard : ∀ i pid, heard (returns o.sh op) i pid
      = if i = j ∧ pid ∈ (s.job j).list.map (·.pid) then [report.event pid] else [] := by
    intro i pid
    rw [hret, hcalls]
    exact heard_wait report.event (hb.nodup_untouched hall) i pid
  refine h.after hbg (hloud.trans hquiet) hok ?_ ?_ ?_ ?_
  · intro i ps hps
    obtain ⟨qs, hqs, hpid⟩ := exists_of_pids (waitJob_pids hw i) hps
    rw [← hpid, hheard, Uncollected.congr (s := waited s j report.event) (by rw [hchild])]
    exact hb.ended_after hall report.event i qs hqs
  · intro i hi ps hps hstop
    obtain ⟨hi', hlist⟩ := hlists i hi
    rw [hlist] at hps
    rw [hheard]
    by_cases hij : i = j
    · subst hij
      obtain ⟨hin, hreport⟩ := stopped_waited hps hstop
      rw [if_pos ⟨rfl, hin⟩, hreport]
      rfl
    · rw [if_neg fun hboth => hij hboth.1, List.nil_append]
      have hjob : (waited s j report.event).job i = s.job i := Function.update_of_ne hij ..
      rw [hjob] at hps
      exact hb.stopped i hi' hij ps hps hstop
  · intro i pid hterm
    obtain ⟨hlt, hgone⟩ := hb.once i pid hterm
    refine ⟨by rw [hlaunched]; exact hlt, ?_⟩
    rintro (hnone | hback)
    · exact hgone (Or.inl hnone)
    · rw [hchild] at hback
      exact hgone (Or.inr ((waited_recorded hall report.event).child_sub hback))
  · intro i pid hi
    rw [hlaunched] at hi
    rw [hheard, if_neg ?_, List.nil_append]
    · exact hb.unheard i pid hi
    · rintro ⟨rfl, hin⟩
      rw [hb.fresh i hi] at hin
      simp at hin

/-- The notes fit when a new job has been launched, be its processes there or not. -/
theorem withJob_before (h : NotesOK o) {pids : List Int} (hnodup : -1 ∉ pids → pids.Nodup)
    (hfree : ∀ q ∈ pids, q ≠ -1 → o.sh.child q = none) :
    NotesBefore o.sh.launched o (withJob o.sh pids) := by
  refine ⟨h.toStatusOK.withJob hnodup hfree, ?_, ?_, ?_, ?_⟩
  · intro i ps hps
    by_cases hi : i = o.sh.launched
    · subst hi
      rw [h.unheard _ _ (Nat.le_refl _)]
      exact iff_of_false (by simp) fun hgone => hgone (withJob_uncollected o.sh hps)
    · rw [withJob_job_of_ne o.sh pids hi] at hps
      rw [h.ended i ps hps, Uncollected.congr (withJob_child_old hfree hi ps.pid)]
  · intro i hi hne ps hps hstop
    rw [withJob_job_of_ne o.sh pids hne] at hps
    exact h.stopped i (List.mem_of_ne_of_mem hne hi) ps hps hstop
  · intro i pid hterm
    obtain ⟨hlt, hgone⟩ := h.once i pid hterm
    refine ⟨Nat.lt_succ_of_lt hlt, ?_⟩
    rwa [Uncollected.congr (withJob_child_old hfree (Nat.ne_of_lt hlt) pid)]
  · intro i pid hi
    exact h.unheard i pid (Nat.le_of_succ_le hi)

theorem execJob_notes (h : NotesOK o) {pids : List Int} {async : Bool} {status : WaitStatus}
    {report : Reports} (hen : (Op.execJob pids async status report).Enabled o.sh)
    (hforks : async = true ∨ -1 ∉ pids)
    (hexec : execJob o.sh pids async status report = some s') :
    NotesOK (observe o (.execJob pids async status report) s') := by
  have hb := withJob_before h (enabled_nodup hen) (enabled_free hen)
  rw [execJob_eq o.sh hen.1 (enabled_zero hen)] at hexec
  cases async with
  | true =>
      cases hexec
      refine h.after rfl rfl hb.toStatusOK hb.ended ?_ hb.once hb.unheard
      intro i hi ps hps hstop
      by_cases hij : i = o.sh.launched
      · subst hij
        rw [(mem_withJob_list hps).2] at hstop
        simp at hstop
      · exact hb.stopped i hi hij ps hps hstop
  | false =>
      have hwaits : waitsFor o.sh (.execJob pids false status report)
          = some (withJob o.sh pids, o.sh.launched) := by
        show (launchLoop o.sh 0 pids).map _ = _
        rw [launchLoop_eq o.sh hen.1 (enabled_zero hen)]
        rfl
      have hall := withJob_untouched o.sh (hforks.resolve_left (by simp))
      refine wait_notes h hb hall rfl ?_ ?_ hexec
      · unfold returns
        rw [hwaits]
      · unfold failsLoudly
        rw [hwaits]

/-- The notes fit when the job has been marked. -/
theorem markJobRunning_before (h : NotesOK o) (hall : Untouched o.sh j) :
    NotesBefore j o (markJobRunning o.sh j) ∧ Untouched (markJobRunning o.sh j) j := by
  have hpids := markJobRunning_pids o.sh j
  have hjob : (markJobRunning o.sh j).job j = _ := Function.update_self ..
  have hother : ∀ i, i ≠ j → (markJobRunning o.sh j).job i = o.sh.job i :=
    fun i hi => Function.update_of_ne hi ..
  have huntouched : Untouched (markJobRunning o.sh j) j := by
    intro ps hps
    rw [hjob] at hps
    obtain ⟨qs, hqs, rfl⟩ := List.mem_map.mp hps
    exact hall qs hqs
  refine ⟨⟨⟨h.toListed.of_sublist (List.Sublist.refl _) rfl hpids, ?_, h.nobody, ?_, ?_⟩, ?_, ?_,
    h.once, h.unheard⟩, huntouched⟩
  · intro k
    rw [hpids k]
    exact h.pids k
  · intro q m hm
    rw [hpids m]
    simp only [hpids]
    exact h.owner q m hm
  · intro i hi ps hps
    by_cases hij : i = j
    · subst hij
      refine iff_of_false ?_ fun hgone => hgone (Or.inr (huntouched ps hps))
      rw [hjob] at hps
      obtain ⟨qs, -, rfl⟩ := List.mem_map.mp hps
      simp
    · rw [hother i hij] at hps
      exact h.status i hi ps hps
  · intro i ps hps
    obtain ⟨qs, hqs, hpid⟩ := exists_of_pids (hpids i) hps
    rw [← hpid]
    exact h.ended i qs hqs
  · intro i hi hij ps hps
    rw [hother i hij] at hps
    exact h.stopped i hi ps hps

/-- No `fork` for a command in the foreground fails, nobody is resumed with `bg`, and `fg` is used
on jobs that have lost no process yet. -/
def GoesWell (o : Observed) : Op → Prop
  | .execJob pids async _ _ => async = true ∨ -1 ∉ pids
  | .resume argv fg garbage true _ _ =>
      ∀ j, Shell.resumed o.sh argv garbage = some j → fg = true ∧ Untouched o.sh j
  | _ => True

theorem resume_notes (h : NotesOK o) {argv : List CString} {fg : Bool} {garbage : Int}
    {killOk : Bool} {status : WaitStatus} {report : Reports}
    (hright : GoesWell o (.resume argv fg garbage killOk status report))
    (hres : resume o.sh argv fg garbage killOk status report = some s') :
    NotesOK (observe o (.resume argv fg garbage killOk status report) s') := by
  rcases resume_cases hres with ⟨rfl, hnone⟩ | ⟨rfl, j, hj, -, hmark⟩
  · have hbg : bgJob o.sh (.resume argv fg garbage killOk status report) = none := by
      cases fg <;> cases killOk <;> first | rfl | exact hnone rfl
    have hwaits : waitsFor o.sh (.resume argv fg garbage killOk status report) = none := by
      cases fg <;> cases killOk <;> first | rfl | (show Option.map _ _ = none; rw [hnone rfl]; rfl)
    refine h.unchanged hbg hwaits ?_
    unfold returns
    rw [hwaits]
  · obtain ⟨rfl, hall⟩ := hright j hj
    have hwaits : waitsFor o.sh (.resume argv true garbage true status report)
        = some (markJobRunning o.sh j, j) := by
      show (Shell.resumed o.sh argv garbage).map _ = _
      rw [hj]
      rfl
    obtain ⟨hb, hall'⟩ := markJobRunning_before h hall
    refine wait_notes h hb hall' rfl ?_ ?_ hmark
    · unfold returns
      rw [hwaits]
    · unfold failsLoudly
      rw [hwaits]

theorem observedStep_ok {o' : Observed} {op : Op} (h : NotesOK o) (hright : GoesWell o op)
    (hstep : observedStep o op = some o') : NotesOK o' := by
  obtain ⟨s', hs, rfl⟩ := Option.map_eq_some_iff.mp hstep
  obtain ⟨hen, hexec⟩ := step_eq_some hs
  cases op with
  | reap answers => exact reap_notes h hen hexec
  | execJob pids async status report => exact execJob_notes h hen hright hexec
  | resume argv fg garbage killOk status report => exact resume_notes h hright hexec

/--
**Statuses.**  In every run in which no `fork` for a command in the foreground fails, nobody
is resumed with `bg` and `fg` is used only on jobs that have lost no process yet, the recorded
statuses are at all times those that `waitpid` has reported, and no failing call changes one.
-/
theorem statuses_faithful {ops : List Op}
    (hright : Runs.EachStep observedStep GoesWell observedStart ops) :
    Runs.Always observedStep Faithful observedStart ops :=
  Runs.always_of_eachStep (fun _ h => h.faithful) (fun _ _ _ h hg hstep => observedStep_ok h hg hstep)
    ops observedStart observedStart_ok hright

/-- A command is stopped in the foreground and resumed with `bg`. -/
def stopAndBg : List Op :=
  [.reap [], .reap [], .execJob [10] false .other (.all .stopped),
    .reap [], .resume ["bg".toList] false 0 true .other (.all .exited)]

/-- It runs, and is written down as stopped. -/
theorem statuses_fail_after_bg :
    ∃ o, Runs.run observedStep observedStart stopAndBg = some o ∧ ¬Faithful o := by
  refine ⟨_, rfl, ?_⟩
  intro hfaithful
  have hrunning := hfaithful.running 0 (by decide) { pid := 10, status := .stopped } (by decide)
    rfl (by decide)
  simp at hrunning

theorem statuses_faithful_fgOnly : Runs.Always observedStep Faithful observedStart fgOnly := by
  refine statuses_faithful ⟨trivial, fun s₁ h₁ => ⟨Or.inl rfl, fun s₂ h₂ => ⟨trivial, fun s₃ h₃ =>
    ⟨?_, fun _ _ => trivial⟩⟩⟩⟩
  cases h₁
  cases h₂
  cases h₃
  intro j hj
  obtain rfl : (0 : JobId) = j := Option.some.inj hj
  refine ⟨rfl, ?_⟩
  unfold Untouched
  decide

end Shell
