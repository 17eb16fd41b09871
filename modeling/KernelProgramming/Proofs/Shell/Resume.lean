/-
Whom `fg` and `bg` act on.

`get_job` may find nothing, but all `resume` does with that is a message: the signal
is sent all the same, and when that succeeds the null pointer goes to
`mark_job_running`.  Without an argument the group is that of a job on the list.  With
one it is any number, and with more it is what `pgid` happens to hold.
-/
import KernelProgramming.Shell.Resume

namespace Shell

variable {s : Sh} {argv : List CString} {fg : Bool} {garbage pgid : Int} {kill : Int → Bool}
  {status : WaitStatus} {report : Reports}

/-- A job on the list has this group. -/
def ListedGroup (s : Sh) (pgid : Int) : Prop := ∃ j ∈ s.head, (s.job j).pgid = pgid

/-- The signal goes to a job on the list, the calls are for a job on the list, and where there
is no call nothing happens. -/
structure ActsOnListed (s : Sh) (r : List Call × Option Sh) : Prop where
  sigcont : ∀ pgid, .sigcont pgid ∈ r.1 → ListedGroup s pgid
  markJobRunning : ∀ jb, .markJobRunning jb ∈ r.1 → ∃ j ∈ s.head, jb = some j
  waitJob : ∀ jb, .waitJob jb ∈ r.1 → ∃ j ∈ s.head, jb = some j
  otherwise : (∀ jb, .markJobRunning jb ∉ r.1) → (∀ jb, .waitJob jb ∉ r.1) → r = ([], some s)

/-- The group is given by no argument, or it is that of a job on the list, or there is none
to signal. -/
def ResumesListed (s : Sh) (argv : List CString) (garbage : Int) (kill : Int → Bool) : Prop :=
  match argv with
  | [_] => True
  | [_, arg] => kill (atoi arg) = true → ListedGroup s (atoi arg)
  | _ => kill garbage = true → ListedGroup s garbage

/-- What `resumeCalls` does to the jobs is what `resume` does. -/
theorem resumeCalls_snd (s : Sh) (argv : List CString) (fg : Bool) (garbage : Int)
    (kill : Int → Bool) (status : WaitStatus) (report : Reports) :
    (resumeCalls s argv fg garbage kill status report).2
      = resume s argv fg garbage ((resumePgid s argv garbage).any kill) status report := by
  unfold resumeCalls resume
  cases resumePgid s argv garbage with
  | none => rfl
  | some pgid =>
      simp only [Option.any_some]
      split
      · unfold resumeJob
        cases getJob s pgid with
        | none => rfl
        | some jb => cases fg <;> rfl
      · rfl

theorem getJob_isSome_iff : (getJob s pgid).isSome ↔ ListedGroup s pgid := by
  unfold getJob ListedGroup
  rw [List.find?_isSome]
  simp only [decide_eq_true_eq]

theorem getJob_mem {jb : JobId} (h : getJob s pgid = some jb) : jb ∈ s.head :=
  List.mem_of_find?_eq_some h

/-- A job that `get_job` has found. -/
theorem actsOnListed_some {jb : JobId} (h : getJob s pgid = some jb) (fg : Bool)
    (status : WaitStatus) (report : Reports) :
    ActsOnListed s (.sigcont pgid :: (resumeJob s (some jb) fg status report).1,
      (resumeJob s (some jb) fg status report).2) := by
  have hgroup : ListedGroup s pgid := getJob_isSome_iff.mp (by rw [h]; rfl)
  have hmem := getJob_mem h
  constructor
  · intro q hq
    cases fg <;> simp only [resumeJob, Bool.false_eq_true, if_false, if_true, List.mem_cons,
      List.not_mem_nil, or_false, reduceCtorEq, Call.sigcont.injEq] at hq <;> exact hq ▸ hgroup
  · intro jb' hjb'
    refine ⟨jb, hmem, ?_⟩
    cases fg <;> simpa [resumeJob] using hjb'
  · intro jb' hjb'
    cases fg with
    | false => simp [resumeJob] at hjb'
    | true => exact ⟨jb, hmem, by simpa [resumeJob] using hjb'⟩
  · intro hno
    refine absurd ?_ (hno (some jb))
    cases fg <;> simp [resumeJob]

/-- Nobody is signalled, or a job of the list. -/
theorem actsOnListed_iff : ActsOnListed s (resumeCalls s argv fg garbage kill status report)
    ↔ ∀ pgid, resumePgid s argv garbage = some pgid → kill pgid = true → ListedGroup s pgid := by
  unfold resumeCalls
  constructor
  · intro h pgid hpgid hkill
    rw [hpgid] at h
    simp only [hkill, if_true] at h
    exact h.sigcont pgid (List.mem_cons_self ..)
  · intro h
    have hnothing : ActsOnListed s ([], some s) :=
      ⟨fun _ hq => absurd hq List.not_mem_nil, fun _ hq => absurd hq List.not_mem_nil,
        fun _ hq => absurd hq List.not_mem_nil, fun _ _ => rfl⟩
    cases hpgid : resumePgid s argv garbage with
    | none => exact hnothing
    | some pgid =>
        simp only
        split
        · rename_i hkill
          obtain ⟨jb, hjb⟩ := Option.isSome_iff_exists.mp (getJob_isSome_iff.mpr (h pgid hpgid hkill))
          rw [hjb]
          exact actsOnListed_some hjb fg status report
        · exact hnothing

/-- Without an argument the group is that of a job on the list. -/
theorem resumePgid_listed (hcurrent : ∀ c, s.current = some c → c ∈ s.head) {name : CString}
    (h : resumePgid s [name] garbage = some pgid) : ListedGroup s pgid := by
  simp only [resumePgid] at h
  split at h
  · rename_i c hc
    exact ⟨c, hcurrent c hc, Option.some.inj h⟩
  · rename_i j rest hc hhead
    refine ⟨j, ?_, Option.some.inj h⟩
    rw [hhead]
    exact List.mem_cons_self ..
  · cases h

/-- The shell with a background job of group 10. -/
def oneJob : Sh where
  job _ := { pgid := 10, list := [⟨10, .running⟩] }
  launched := 1
  head := [0]
  current := none
  child pid := if pid = 10 then some 0 else none

end Shell
