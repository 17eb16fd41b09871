/-
The job list holds the jobs that are not over.

A job comes off the list in two places.  `update_process_status` takes off the job it
has found, and `wait_job` takes off the first job, whichever one it has been waiting
for.  Both decide by the statuses that are written down, and `fg` and `bg` write down
1 for every process of the job, ended or not.  A `fork` that fails is written down as a
process too, with the pid -1; no process ever ends under this pid, and who waits for it
collects a child of any job.

So the list is exact as long as no `fork` fails, `fg` and `bg` are used on jobs that
have lost no process yet, and `fg` waits for the first job of the list or sees the job
stop.
-/
import Mathlib.Data.List.Nodup
import KernelProgramming.Proofs.Shell.Calls

namespace Shell

variable {s s' : Sh} {j k : JobId} {pid : Int}

/-- A process of the job has not been collected. -/
def Pending (s : Sh) (j : JobId) : Prop := ∃ ps ∈ (s.job j).list, s.child ps.pid = some j

/-- No process of the job has been collected. -/
def Untouched (s : Sh) (j : JobId) : Prop := ∀ ps ∈ (s.job j).list, s.child ps.pid = some j

/-- Every job with a process that has not been collected is on the list once, and no other
job is on it. -/
structure Exact (s : Sh) : Prop where
  pending : ∀ j, Pending s j → s.head.count j = 1
  others : ∀ j ∈ s.head, Pending s j

/-- What keeps the list exact. -/
structure JobsOK (s : Sh) : Prop where
  exact : Exact s
  fresh : ∀ j, s.launched ≤ j → (s.job j).list = []
  pids : ∀ j, ((s.job j).list.map (·.pid)).Nodup
  status : ∀ j ∈ s.head, ∀ ps ∈ (s.job j).list,
    ps.status = .terminated ↔ s.child ps.pid ≠ some j
  /-- A pid may be written down in several jobs.  The child that has it belongs to the first. -/
  found : ∀ pid j, s.child pid = some j →
    s.head.find? (fun k => (s.job k).hasPid pid) = some j
  /-- What a failing `fork` returns is nobody's pid. -/
  nobody : s.child (-1) = none

theorem start_ok : JobsOK start := by
  refine ⟨⟨?_, ?_⟩, ?_, ?_, ?_, ?_, rfl⟩
  · rintro j ⟨ps, hps, -⟩
    simp [start] at hps
  · intro j hj
    simp [start] at hj
  · intro j _
    rfl
  · intro j
    exact List.nodup_nil
  · intro j hj
    simp [start] at hj
  · intro pid j hj
    simp [start] at hj

/-- A child is a process of a job on the list. -/
theorem JobsOK.child_mem (h : JobsOK s) (hc : s.child pid = some j) :
    j ∈ s.head ∧ pid ∈ (s.job j).list.map (·.pid) := by
  have hfound := h.found pid j hc
  have hpid := List.find?_some (p := fun k => (s.job k).hasPid pid) hfound
  exact ⟨List.mem_of_find?_eq_some hfound, hasPid_iff.mp hpid⟩

/-- The list and the children do not depend on `current`. -/
theorem JobsOK.setCurrent (h : JobsOK s) (c : Option JobId) : JobsOK { s with current := c } :=
  ⟨⟨h.exact.pending, h.exact.others⟩, h.fresh, h.pids, h.status, h.found, h.nobody⟩

/-! ### Writing down what has happened to a job -/

/-- Some children of the job have been collected, and the statuses of its processes say
which. -/
structure Recorded (j : JobId) (s s' : Sh) : Prop where
  head : s'.head = s.head
  launched : s'.launched = s.launched
  others : ∀ k, k ≠ j → s'.job k = s.job k
  pids : (s'.job j).list.map (·.pid) = (s.job j).list.map (·.pid)
  childOthers : ∀ k, k ≠ j → ∀ pid, s'.child pid = some k ↔ s.child pid = some k
  child : ∀ pid, s'.child pid = some j → s.child pid = some j
  status : ∀ ps ∈ (s'.job j).list, ps.status = .terminated ↔ s'.child ps.pid ≠ some j

/-- The job counts as terminated if and only if all its processes have been collected. -/
theorem Recorded.terminated (hr : Recorded j s s') :
    (s'.job j).terminated = true ↔ ¬Pending s' j := by
  unfold Job.terminated
  rw [List.all_eq_true]
  constructor
  · rintro hall ⟨ps, hps, hchild⟩
    exact (hr.status ps hps).mp (of_decide_eq_true (hall ps hps)) hchild
  · intro hnot ps hps
    exact decide_eq_true ((hr.status ps hps).mpr fun hchild => hnot ⟨ps, hps, hchild⟩)

theorem Recorded.pids_all (hr : Recorded j s s') (k : JobId) :
    (s'.job k).list.map (·.pid) = (s.job k).list.map (·.pid) := by
  by_cases hk : k = j
  · rw [hk]
    exact hr.pids
  · rw [hr.others k hk]

theorem Recorded.pending_of_ne (hr : Recorded j s s') (hk : k ≠ j) : Pending s' k ↔ Pending s k := by
  unfold Pending
  rw [hr.others k hk]
  constructor
  · rintro ⟨ps, hps, hchild⟩
    exact ⟨ps, hps, (hr.childOthers k hk ps.pid).mp hchild⟩
  · rintro ⟨ps, hps, hchild⟩
    exact ⟨ps, hps, (hr.childOthers k hk ps.pid).mpr hchild⟩

theorem Recorded.child_sub (hr : Recorded j s s') (hc : s'.child pid = some k) :
    s.child pid = some k := by
  by_cases hk : k = j
  · subst hk
    exact hr.child pid hc
  · exact (hr.childOthers k hk pid).mp hc

theorem Recorded.child_none (hr : Recorded j s s') (hc : s.child pid = none) :
    s'.child pid = none := by
  cases hc' : s'.child pid with
  | none => rfl
  | some k =>
      rw [hr.child_sub hc'] at hc
      simp at hc

theorem Recorded.find (hr : Recorded j s s') (l : List JobId) (pid : Int) :
    l.find? (fun k => (s'.job k).hasPid pid) = l.find? (fun k => (s.job k).hasPid pid) := by
  congr 1
  funext k
  exact hasPid_congr (hr.pids_all k) pid

theorem Recorded.fresh (hr : Recorded j s s') (h : JobsOK s) (k : JobId)
    (hk : s'.launched ≤ k) : (s'.job k).list = [] := by
  rw [hr.launched] at hk
  have hpids := hr.pids_all k
  rw [h.fresh k hk] at hpids
  exact List.map_eq_nil_iff.mp hpids

/-- A job on the list other than the one the record is about. -/
theorem Recorded.status_all (hr : Recorded j s s') (h : JobsOK s) (hk : k ∈ s.head) :
    ∀ ps ∈ (s'.job k).list, ps.status = .terminated ↔ s'.child ps.pid ≠ some k := by
  by_cases hkj : k = j
  · subst hkj
    exact hr.status
  · intro ps hps
    rw [hr.others k hkj] at hps
    rw [h.status k hk ps hps, ne_eq, ne_eq, hr.childOthers k hkj]

/-- A job that is not over stays on the list. -/
theorem Recorded.keep (hr : Recorded j s s') (h : JobsOK s) (hp : Pending s j → Pending s' j) :
    JobsOK s' := by
  refine ⟨⟨?_, ?_⟩, hr.fresh h, ?_, ?_, ?_, hr.child_none h.nobody⟩
  · intro k hk
    rw [hr.head]
    refine h.exact.pending k ?_
    obtain ⟨ps, hps, hchild⟩ := hk
    obtain ⟨qs, hqs, heq⟩ := exists_of_pids (hr.pids_all k) hps
    exact ⟨qs, hqs, by rw [heq]; exact hr.child_sub hchild⟩
  · intro k hk
    rw [hr.head] at hk
    have hold := h.exact.others k hk
    by_cases hkj : k = j
    · subst hkj
      exact hp hold
    · exact (hr.pending_of_ne hkj).mpr hold
  · intro k
    rw [hr.pids_all k]
    exact h.pids k
  · intro k hk
    rw [hr.head] at hk
    exact hr.status_all h hk
  · intro pid k hchild
    rw [hr.head, hr.find]
    exact h.found pid k (hr.child_sub hchild)

/-- Unlinking one job leaves the search for another as it was. -/
theorem find?_erase_of_ne {l : List JobId} {p : JobId → Bool} (h : l.find? p = some k)
    (hk : k ≠ j) : (l.erase j).find? p = some k := by
  induction l with
  | nil => simp at h
  | cons a rest ih =>
      rw [List.find?_cons] at h
      by_cases hp : p a = true
      · rw [hp] at h
        cases h
        rw [List.erase_cons_tail (by simpa using hk), List.find?_cons_of_pos hp]
      · simp only [hp] at h
        by_cases haj : a = j
        · subst haj
          rw [List.erase_cons_head]
          exact h
        · rw [List.erase_cons_tail (by simpa using haj), List.find?_cons_of_neg hp]
          exact ih h

/-- A job that is over comes off the list. -/
theorem Recorded.drop (hr : Recorded j s s') (h : JobsOK s) (hj : Pending s j)
    (hover : ¬Pending s' j) : JobsOK { s' with head := s'.head.erase j } := by
  have hcount := h.exact.pending j hj
  have hnot : ∀ k ∈ s.head.erase j, k ≠ j := by
    rintro k hk rfl
    have hpos := List.count_pos_iff.mpr hk
    rw [List.count_erase_self, hcount] at hpos
    exact absurd hpos (Nat.lt_irrefl 0)
  refine ⟨⟨?_, ?_⟩, hr.fresh h, ?_, ?_, ?_, hr.child_none h.nobody⟩
  · intro k hk
    have hkj : k ≠ j := by
      rintro rfl
      exact hover hk
    show (s'.head.erase j).count k = 1
    rw [hr.head, List.count_erase_of_ne hkj]
    exact h.exact.pending k ((hr.pending_of_ne hkj).mp hk)
  · intro k hk
    have hk' : k ∈ s.head.erase j := by
      rw [← hr.head]
      exact hk
    exact (hr.pending_of_ne (hnot k hk')).mpr (h.exact.others k (List.mem_of_mem_erase hk'))
  · intro k
    show ((s'.job k).list.map (·.pid)).Nodup
    rw [hr.pids_all k]
    exact h.pids k
  · intro k hk
    have hk' : k ∈ s.head.erase j := by
      rw [← hr.head]
      exact hk
    exact hr.status_all h (List.mem_of_mem_erase hk')
  · intro pid k hchild
    have hkj : k ≠ j := by
      rintro rfl
      have hmem := (h.child_mem (hr.child_sub hchild)).2
      rw [← hr.pids] at hmem
      obtain ⟨ps, hps, heq⟩ := List.mem_map.mp hmem
      exact hover ⟨ps, hps, by rw [heq]; exact hchild⟩
    show (s'.head.erase j).find? _ = some k
    rw [hr.find, hr.head]
    exact find?_erase_of_ne (h.found pid k (hr.child_sub hchild)) hkj

/-! ### `reap` -/

/-- A child is collected and written down. -/
theorem recordStatus_recorded (h : JobsOK s) (hc : s.child pid = some j) {e : Event}
    (he : e.ends = true) :
    Recorded j s
      (recordStatus { s with child := Function.update s.child pid none } j pid e.status) := by
  have hj := (h.child_mem hc).1
  have hjob : (recordStatus { s with child := Function.update s.child pid none } j pid
      e.status).job j = _ := Function.update_self ..
  refine ⟨rfl, rfl, fun k hk => Function.update_of_ne hk .., ?_, ?_, ?_, ?_⟩
  · rw [hjob, List.map_map]
    refine List.map_congr_left fun ps _ => ?_
    show (if ps.pid = pid then changeStatus ps e.status else ps).pid = ps.pid
    split
    · exact changeStatus_pid ps e.status
    · rfl
  · intro k hk q
    show Function.update s.child pid none q = some k ↔ _
    by_cases hq : q = pid
    · subst hq
      rw [Function.update_self, hc]
      simp [Ne.symm hk]
    · rw [Function.update_of_ne hq]
  · intro q hq
    have hq' : Function.update s.child pid none q = some j := hq
    by_cases heq : q = pid
    · subst heq
      rw [Function.update_self] at hq'
      simp at hq'
    · rw [Function.update_of_ne heq] at hq'
      exact hq'
  · intro ps hps
    rw [hjob] at hps
    obtain ⟨qs, hqs, rfl⟩ := List.mem_map.mp hps
    show _ ↔ Function.update s.child pid none _ ≠ some j
    by_cases hq : qs.pid = pid
    · rw [if_pos hq, changeStatus_pid, hq, Function.update_self, changeStatus_terminated]
      simp [he]
    · rw [if_neg hq, Function.update_of_ne hq]
      exact h.status j hj qs hqs

/-- The job of a child that is collected comes off the list if it is over. -/
theorem updateProcessStatus_ok (h : JobsOK s) (hc : s.child pid = some j) {e : Event}
    (he : e.ends = true) :
    ∃ s', updateProcessStatus { s with child := Function.update s.child pid none } pid e.status
        = some s' ∧ JobsOK s' ∧ s'.child = Function.update s.child pid none := by
  have hpend : Pending s j := h.exact.others j (h.child_mem hc).1
  have hr := recordStatus_recorded h hc he
  unfold updateProcessStatus
  simp only [h.found pid j hc]
  by_cases hover : Pending
      (recordStatus { s with child := Function.update s.child pid none } j pid e.status) j
  · rw [if_neg (by rw [hr.terminated]; exact not_not.mpr hover)]
    have hok := hr.keep h fun _ => hover
    split
    · exact ⟨_, rfl, hok.setCurrent _, rfl⟩
    · exact ⟨_, rfl, hok, rfl⟩
  · rw [if_pos (hr.terminated.mpr hover)]
    exact ⟨_, rfl, (hr.drop h hpend hover).setCurrent _, rfl⟩

/-- **Reaping keeps the list exact.** -/
theorem reap_ok : ∀ (answers : List (Int × Event)) (s : Sh), JobsOK s →
    (answers.map (·.1)).Nodup → (∀ a ∈ answers, s.child a.1 ≠ none ∧ a.2.ends = true) →
    ∃ s', reap s answers = some s' ∧ JobsOK s' := by
  intro answers
  induction answers with
  | nil =>
      intro s h _ _
      exact ⟨s, rfl, h⟩
  | cons a rest ih =>
      intro s h hnodup hall
      rw [List.map_cons, List.nodup_cons] at hnodup
      obtain ⟨hchild, hends⟩ := hall a (List.mem_cons_self ..)
      obtain ⟨j, hj⟩ := Option.ne_none_iff_exists'.mp hchild
      obtain ⟨s', hupd, hok, hsame⟩ := updateProcessStatus_ok h hj hends
      obtain ⟨t, ht, htok⟩ := ih s' hok hnodup.2 (by
        intro b hb
        obtain ⟨hb1, hb2⟩ := hall b (List.mem_cons_of_mem a hb)
        have hne : b.1 ≠ a.1 := by
          intro heq
          exact hnodup.1 (heq ▸ List.mem_map_of_mem hb)
        rw [hsame, Function.update_of_ne hne]
        exact ⟨hb1, hb2⟩)
      refine ⟨t, ?_, htok⟩
      unfold reap
      rw [hupd]
      exact ht

/-! ### `wait_job` -/

/-- Waiting for a child that is there. -/
theorem waitpid_child {child : Int → Option JobId} (h : child pid = some j) (status : WaitStatus)
    (e : Event) : waitpid child pid status e =
      (fun q => if q = pid ∧ e.ends = true then none else child q, e.status) := by
  unfold waitpid
  rw [if_neg (by rw [h]; simp)]
  by_cases hends : e.ends = true
  · rw [if_pos hends]
    refine Prod.ext ?_ rfl
    funext q
    simp [Function.update_apply, hends]
  · rw [if_neg hends]
    simp [hends]

/-- A child has a pid. -/
theorem pid_ne {child : Int → Option JobId} (hnobody : child (-1) = none)
    (hc : child pid = some j) : pid ≠ -1 := by
  rintro rfl
  rw [hnobody] at hc
  simp at hc

theorem Reports.answer_pid (report : Reports) (hpid : pid ≠ -1) (left : Nat) :
    report.answer pid left = (pid, report.event pid) := if_neg hpid

/-- When all the processes are there to be waited for, each gets the status of its own
event, whatever `status` holds to begin with. -/
theorem waitLoop_eq (report : Reports) : ∀ (l : List Process) (child : Int → Option JobId)
    (status : WaitStatus), child (-1) = none → (l.map (·.pid)).Nodup →
    (∀ ps ∈ l, child ps.pid = some j) →
    waitLoop report child status l =
      (fun q => if q ∈ l.map (·.pid) ∧ (report.event q).ends = true then none else child q,
        l.map fun ps => changeStatus ps (report.event ps.pid).status) := by
  intro l
  induction l with
  | nil =>
      intro child status _ _ _
      simp [waitLoop]
  | cons ps rest ih =>
      intro child status hnobody hnodup hall
      rw [List.map_cons, List.nodup_cons] at hnodup
      have hrest : ∀ qs ∈ rest, qs.pid ≠ ps.pid := by
        intro qs hqs heq
        exact hnodup.1 (heq ▸ List.mem_map_of_mem hqs)
      have hchild := hall ps (List.mem_cons_self ..)
      unfold waitLoop
      simp only [report.answer_pid (pid_ne hnobody hchild), waitpid_child hchild]
      rw [ih _ _ (by simp only [hnobody, ite_self]) hnodup.2 (by
        intro qs hqs
        rw [if_neg fun hboth => hrest qs hqs hboth.1]
        exact hall qs (List.mem_cons_of_mem ps hqs))]
      refine Prod.ext ?_ rfl
      funext q
      by_cases hq : q = ps.pid
      · subst hq
        by_cases hends : (report.event ps.pid).ends = true <;> simp [hends]
      · simp [hq]

/-- The state after the loop of `wait_job`. -/
def waited (s : Sh) (j : JobId) (event : Int → Event) : Sh :=
  { s.setJob j
      { s.job j with
        list := (s.job j).list.map fun ps => changeStatus ps (event ps.pid).status }
    with
    child := fun q =>
      if q ∈ (s.job j).list.map (·.pid) ∧ (event q).ends = true then none else s.child q }

theorem waited_recorded (h : Untouched s j) (event : Int → Event) :
    Recorded j s (waited s j event) := by
  have hjob : (waited s j event).job j = _ := Function.update_self ..
  have howner : ∀ q ∈ (s.job j).list.map (·.pid), s.child q = some j := by
    intro q hq
    obtain ⟨ps, hps, rfl⟩ := List.mem_map.mp hq
    exact h ps hps
  refine ⟨rfl, rfl, fun k hk => Function.update_of_ne hk .., ?_, ?_, ?_, ?_⟩
  · rw [hjob, List.map_map]
    exact List.map_congr_left fun ps _ => changeStatus_pid ps _
  · intro k hk q
    show (if _ then none else s.child q) = some k ↔ _
    split
    · rename_i hq
      rw [howner q hq.1]
      simp [Ne.symm hk]
    · rfl
  · intro q hq
    have hq' : (if _ then none else s.child q) = some j := hq
    split at hq'
    · simp at hq'
    · exact hq'
  · intro ps hps
    rw [hjob] at hps
    obtain ⟨qs, hqs, rfl⟩ := List.mem_map.mp hps
    show _ ↔ (if _ then none else s.child _) ≠ some j
    rw [changeStatus_pid, changeStatus_terminated]
    have hmem : qs.pid ∈ (s.job j).list.map (·.pid) := List.mem_map_of_mem hqs
    by_cases hends : (event qs.pid).ends = true
    · rw [if_pos ⟨hmem, hends⟩]
      simp [hends]
    · rw [if_neg fun hboth => hends hboth.2, h qs hqs]
      simp [hends]

/-- Some process of the job stops instead of ending. -/
def SomeStops (s : Sh) (j : JobId) (event : Int → Event) : Prop :=
  ∃ ps ∈ (s.job j).list, event ps.pid = .stopped

theorem waited_pending (h : Untouched s j) {event : Int → Event} :
    Pending (waited s j event) j ↔ SomeStops s j event := by
  have hr := waited_recorded h event
  have hjob : (waited s j event).job j = _ := Function.update_self ..
  unfold Pending
  rw [hjob]
  constructor
  · rintro ⟨ps, hps, hchild⟩
    obtain ⟨qs, hqs, rfl⟩ := List.mem_map.mp hps
    have hchild' : (if _ then none else s.child _) = some j := hchild
    rw [changeStatus_pid] at hchild'
    refine ⟨qs, hqs, ?_⟩
    cases hev : event qs.pid with
    | stopped => rfl
    | exited =>
        rw [if_pos ⟨List.mem_map_of_mem hqs, by rw [hev]; rfl⟩] at hchild'
        simp at hchild'
    | signaled =>
        rw [if_pos ⟨List.mem_map_of_mem hqs, by rw [hev]; rfl⟩] at hchild'
        simp at hchild'
  · rintro ⟨ps, hps, hev⟩
    refine ⟨_, List.mem_map_of_mem hps, ?_⟩
    show (if _ then none else s.child _) = some j
    rw [changeStatus_pid, if_neg fun hboth => by rw [hev] at hboth; simp [Event.ends] at hboth]
    exact h ps hps

/-- **Waiting keeps the list exact** when none of the job's processes has been collected
before, and the job is the first on the list or does not end. -/
theorem waitJob_ok (h : JobsOK s) (hj : j ∈ s.head) (hall : Untouched s j) (status : WaitStatus)
    {report : Reports} (hright : s.head.head? = some j ∨ SomeStops s j report.event) :
    ∃ s', waitJob s j status report = some s' ∧ JobsOK s' := by
  have hr := waited_recorded hall report.event
  have hpend := h.exact.others j hj
  have hloop := waitLoop_eq report (s.job j).list s.child status h.nobody (h.pids j) hall
  have heq : waitJob s j status report = finishWait (waited s j report.event) j := by
    unfold waitJob
    simp only [hloop]
    rfl
  rw [heq]
  unfold finishWait
  by_cases hstops : SomeStops s j report.event
  · have hpend' := (waited_pending hall).mpr hstops
    have hok := hr.keep h fun _ => hpend'
    rw [if_neg (by rw [hr.terminated]; exact not_not.mpr hpend')]
    split
    · exact ⟨_, rfl, hok.setCurrent _⟩
    · exact ⟨_, rfl, hok⟩
  · have hover : ¬Pending (waited s j report.event) j := fun hp => hstops ((waited_pending hall).mp hp)
    have hfirst := hright.resolve_right hstops
    have hok := hr.drop h hpend hover
    rw [if_pos (hr.terminated.mpr hover)]
    cases hhead : s.head with
    | nil =>
        rw [hhead] at hj
        simp at hj
    | cons k rest =>
        rw [hhead] at hfirst
        obtain rfl : k = j := Option.some.inj hfirst
        have herase : (waited s k report.event).head.erase k = rest := by
          show s.head.erase k = rest
          rw [hhead, List.erase_cons_head]
        rw [herase] at hok
        have hsame : (waited s k report.event).head = k :: rest := hhead
        unfold popHead
        rw [hsame]
        exact ⟨_, rfl, hok⟩

/-! ### Launching -/

/-- A job is being launched: it is the first on the list and none of its processes has been
collected. -/
structure Launching (s : Sh) (j : JobId) : Prop where
  ok : JobsOK s
  first : s.head.head? = some j
  untouched : Untouched s j

theorem JobsOK.lt_launched (h : JobsOK s) (hc : s.child pid = some j) : j < s.launched := by
  by_contra hge
  have hmem := (h.child_mem hc).2
  rw [h.fresh j (Nat.le_of_not_lt hge)] at hmem
  simp at hmem

section withJob

variable {pids : List Int}

/-- Who the child belongs to that has a pid. -/
theorem withJob_child_old (hfree : ∀ q ∈ pids, q ≠ -1 → s.child q = none) (hk : k ≠ s.launched)
    (q : Int) : (withJob s pids).child q = some k ↔ s.child q = some k := by
  show (if q ∈ pids ∧ q ≠ -1 then some s.launched else s.child q) = some k ↔ _
  by_cases hq : q ∈ pids ∧ q ≠ -1
  · rw [if_pos hq, hfree q hq.1 hq.2]
    simp [Ne.symm hk]
  · rw [if_neg hq]

theorem withJob_pending (hfree : ∀ q ∈ pids, q ≠ -1 → s.child q = none) (hk : k ≠ s.launched) :
    Pending (withJob s pids) k ↔ Pending s k := by
  unfold Pending
  rw [withJob_job_of_ne s pids hk]
  simp only [withJob_child_old hfree hk]

/-- The children of a new job, if no `fork` has failed. -/
theorem withJob_child_new (s : Sh) (hforks : -1 ∉ pids) {q : Int} (hq : q ∈ pids) :
    (withJob s pids).child q = some s.launched :=
  if_pos ⟨hq, fun heq => hforks (heq ▸ hq)⟩

theorem withJob_untouched (s : Sh) (hforks : -1 ∉ pids) :
    Untouched (withJob s pids) s.launched := by
  intro ps hps
  exact withJob_child_new s hforks (mem_withJob_list hps).1

/-- The search for a child finds the job it was forked for. -/
theorem withJob_found (h : JobsOK s) (hforks : -1 ∉ pids) (q : Int) (k : JobId)
    (hq : (withJob s pids).child q = some k) :
    (withJob s pids).head.find? (fun i => ((withJob s pids).job i).hasPid q) = some k := by
  have hown : ((withJob s pids).job s.launched).hasPid q = true ↔ q ∈ pids := by
    rw [hasPid_iff, withJob_pids, List.mem_reverse]
  show (s.launched :: s.head).find? _ = some k
  by_cases hin : q ∈ pids
  · -- The new job is the first, and so it is found first.
    rw [List.find?_cons_of_pos (p := fun i => ((withJob s pids).job i).hasPid q) (hown.mpr hin)]
    exact (withJob_child_new s hforks hin).symm.trans hq
  · have hq' : s.child q = some k := by
      rw [← hq]
      exact (if_neg fun hboth => hin hboth.1).symm
    rw [List.find?_cons_of_neg (p := fun i => ((withJob s pids).job i).hasPid q)
      fun hpid => hin (hown.mp hpid)]
    have hsame : (fun i => ((withJob s pids).job i).hasPid q) = fun i => (s.job i).hasPid q := by
      funext i
      by_cases hi : i = s.launched
      · rw [hi, Bool.eq_iff_iff]
        refine iff_of_false (fun hpid => hin (hown.mp hpid)) fun hpid => ?_
        rw [hasPid_iff, h.fresh s.launched (Nat.le_refl _)] at hpid
        simp at hpid
      · rw [withJob_job_of_ne s pids hi]
    rw [hsame]
    exact h.found q k hq'

/-- **Launching keeps the list exact**, and the new job is the first on it. -/
theorem withJob_launching (h : JobsOK s) (hne : pids ≠ []) (hforks : -1 ∉ pids)
    (hnodup : pids.Nodup) (hfree : ∀ q ∈ pids, q ≠ -1 → s.child q = none) :
    Launching (withJob s pids) s.launched := by
  have hnot : s.launched ∉ s.head := by
    intro hin
    obtain ⟨ps, -, hchild⟩ := h.exact.others s.launched hin
    exact absurd (h.lt_launched hchild) (Nat.lt_irrefl _)
  have huntouched := withJob_untouched s hforks
  have hmem : ∀ k, k ≠ s.launched → k ∈ (withJob s pids).head → k ∈ s.head := by
    intro k hk hin
    exact List.mem_of_ne_of_mem hk hin
  have hnobody : (withJob s pids).child (-1) = none :=
    (if_neg fun hboth => hboth.2 rfl).trans h.nobody
  refine ⟨⟨⟨?_, ?_⟩, ?_, ?_, ?_, withJob_found h hforks, hnobody⟩, rfl, huntouched⟩
  · intro k hk
    show (s.launched :: s.head).count k = 1
    by_cases hkj : k = s.launched
    · rw [hkj, List.count_cons_self, List.count_eq_zero.mpr hnot]
    · rw [List.count_cons_of_ne (Ne.symm hkj)]
      exact h.exact.pending k ((withJob_pending hfree hkj).mp hk)
  · intro k hk
    by_cases hkj : k = s.launched
    · subst hkj
      obtain ⟨pid, hpid⟩ := List.exists_mem_of_ne_nil pids hne
      have hps : { pid, status := .running } ∈ ((withJob s pids).job s.launched).list := by
        rw [withJob_job_self]
        exact List.mem_map.mpr ⟨pid, List.mem_reverse.mpr hpid, rfl⟩
      exact ⟨_, hps, huntouched _ hps⟩
    · exact (withJob_pending hfree hkj).mpr (h.exact.others k (hmem k hkj hk))
  · intro k hk
    have hk' : s.launched + 1 ≤ k := hk
    rw [withJob_job_of_ne s pids (Nat.ne_of_gt hk')]
    exact h.fresh k (Nat.le_of_succ_le hk')
  · intro k
    by_cases hkj : k = s.launched
    · rw [hkj, withJob_pids]
      exact List.nodup_reverse.mpr hnodup
    · rw [withJob_job_of_ne s pids hkj]
      exact h.pids k
  · intro k hk ps hps
    by_cases hkj : k = s.launched
    · subst hkj
      refine iff_of_false ?_ fun hchild => hchild (huntouched ps hps)
      rw [(mem_withJob_list hps).2]
      simp
    · rw [withJob_job_of_ne s pids hkj] at hps
      rw [h.status k (hmem k hkj hk) ps hps, ne_eq, ne_eq, withJob_child_old hfree hkj]

end withJob

theorem execJob_ok (h : JobsOK s) {pids : List Int} {async : Bool} {status : WaitStatus}
    {report : Reports} (hen : (Op.execJob pids async status report).Enabled s)
    (hforks : -1 ∉ pids) : ∃ s', execJob s pids async status report = some s' ∧ JobsOK s' := by
  have hl := withJob_launching h hen.1 hforks (enabled_nodup hen hforks) (enabled_free hen)
  rw [execJob_eq s hen.1 (enabled_zero hen)]
  cases async with
  | true => exact ⟨_, rfl, hl.ok⟩
  | false =>
      have hmem := List.mem_of_mem_head? hl.first
      exact waitJob_ok hl.ok hmem hl.untouched status (Or.inl hl.first)

/-! ### `fg` and `bg` -/

/-- Marking a job none of whose processes has ended. -/
theorem markJobRunning_ok (h : JobsOK s) (hall : Untouched s j) :
    JobsOK (markJobRunning s j) ∧ Untouched (markJobRunning s j) j := by
  have hjob : (markJobRunning s j).job j = _ := Function.update_self ..
  have hall' : Untouched (markJobRunning s j) j := by
    intro ps hps
    rw [hjob] at hps
    obtain ⟨qs, hqs, rfl⟩ := List.mem_map.mp hps
    exact hall qs hqs
  have hr : Recorded j s (markJobRunning s j) := by
    refine ⟨rfl, rfl, fun k hk => Function.update_of_ne hk .., ?_, fun _ _ _ => Iff.rfl,
      fun _ hq => hq, ?_⟩
    · rw [hjob, List.map_map]
      rfl
    · intro ps hps
      refine iff_of_false ?_ fun hne => hne (hall' ps hps)
      rw [hjob] at hps
      obtain ⟨qs, -, rfl⟩ := List.mem_map.mp hps
      simp
  refine ⟨hr.keep h ?_, hall'⟩
  rintro ⟨ps, hps, hchild⟩
  refine ⟨{ ps with status := .stopped }, ?_, hchild⟩
  rw [hjob]
  exact List.mem_map_of_mem hps

theorem resume_ok (h : JobsOK s) {argv : List CString} {fg : Bool} {garbage : Int}
    {killOk : Bool} {status : WaitStatus} {report : Reports}
    (hright : killOk = true → ∀ j, resumed s argv garbage = some j →
      Untouched s j ∧ (fg = true → s.head.head? = some j ∨ SomeStops s j report.event))
    (hres : resume s argv fg garbage killOk status report = some s') : JobsOK s' := by
  rcases resume_cases hres with ⟨rfl, -⟩ | ⟨hkill, j, hj, hmem, hmark⟩
  · exact h
  · obtain ⟨hall, hwait⟩ := hright hkill j hj
    obtain ⟨hok, hall'⟩ := markJobRunning_ok h hall
    cases fg with
    | false =>
        cases hmark
        exact hok
    | true =>
        have hstops : SomeStops s j report.event → SomeStops (markJobRunning s j) j report.event := by
          rintro ⟨ps, hps, hev⟩
          refine ⟨{ ps with status := .stopped }, ?_, hev⟩
          show _ ∈ (Function.update s.job j _ j).list
          rw [Function.update_self]
          exact List.mem_map_of_mem hps
        obtain ⟨t, ht, htok⟩ := waitJob_ok hok hmem hall' status ((hwait rfl).imp id hstops)
        rw [if_pos rfl, ht] at hmark
        cases hmark
        exact htok

/-! ### Runs -/

/-- No `fork` fails.  A `fg` or `bg` goes right: no process of the job has been collected yet, and
`fg` waits for the first job of the list or sees a process of the job stop. -/
def GoesRight (s : Sh) : Op → Prop
  | .execJob pids _ _ _ => -1 ∉ pids
  | .resume argv fg garbage true _ report =>
      ∀ j, resumed s argv garbage = some j →
        Untouched s j ∧ (fg = true → s.head.head? = some j ∨ SomeStops s j report.event)
  | _ => True

theorem step_ok (h : JobsOK s) {op : Op} (hright : GoesRight s op)
    (hstep : step s op = some s') : JobsOK s' := by
  obtain ⟨hen, hexec⟩ := step_eq_some hstep
  cases op with
  | reap answers =>
      obtain ⟨t, ht, hok⟩ := reap_ok answers s h hen.1 hen.2
      obtain rfl : t = s' := Option.some.inj (ht.symm.trans hexec)
      exact hok
  | execJob pids async status report =>
      obtain ⟨t, ht, hok⟩ := execJob_ok h hen hright
      obtain rfl : t = s' := Option.some.inj (ht.symm.trans hexec)
      exact hok
  | resume argv fg garbage killOk status report =>
      refine resume_ok h ?_ hexec
      rintro rfl
      exact hright

/--
**The job list.**  In every run of the shell in which no `fork` fails and each `fg` and `bg`
goes right, the list holds at all times exactly the jobs with a process that has not been
collected, each once.
-/
theorem jobList_exact {ops : List Op} (hright : Runs.EachStep step GoesRight start ops) :
    Runs.Always step Exact start ops :=
  Runs.always_of_eachStep (fun _ h => h.exact) (fun _ _ _ h hg hstep => step_ok h hg hstep)
    ops start start_ok hright

/-- Two commands in the background, `fg` on the older one, and it exits. -/
def fgOlder : List Op :=
  [.reap [], .reap [], .execJob [10] true .other (.all .exited),
    .reap [], .reap [], .execJob [11] true .other (.all .exited),
    .reap [], .resume ["fg".toList, "10".toList] true 0 true .other (.all .exited)]

/-- The newer job comes off the list instead. -/
theorem jobList_fails_after_fg :
    ∃ t, Runs.run step start fgOlder = some t ∧ ¬Exact t := by
  refine ⟨_, rfl, ?_⟩
  intro hexact
  have hone := hexact.pending 1 ⟨{ pid := 11, status := .running }, by decide, by decide⟩
  exact absurd hone (by decide)

/-- A pipeline in the background, and `fg` when there is no other job. -/
def fgOnly : List Op :=
  [.reap [], .execJob [10, 11] true .other (.all .exited),
    .reap [], .resume ["fg".toList] true 0 true .other (.all .exited)]

theorem jobList_exact_fgOnly : Runs.Always step Exact start fgOnly := by
  have hforks : (-1 : Int) ∉ [10, 11] := by decide
  refine jobList_exact ⟨trivial, fun s₁ h₁ => ⟨hforks, fun s₂ h₂ => ⟨trivial, fun s₃ h₃ =>
    ⟨?_, fun _ _ => trivial⟩⟩⟩⟩
  cases h₁
  cases h₂
  cases h₃
  intro j hj
  obtain rfl : (0 : JobId) = j := Option.some.inj hj
  refine ⟨?_, fun _ => Or.inl rfl⟩
  unfold Untouched
  decide

end Shell
