/-
What `exec_job` does with a line, and whether it comes back.

`plan` says of a text what `exec_job` does with it, and `dispatch_plan` is that the code
which cuts the line in place comes to the same.  From there the jobs decide: a `fg` or
`bg` that signals a group which is no job's brings the shell down, and so does a `reap`
that collects a process nobody has a record of (`execLine_returned_iff`).
-/
import KernelProgramming.Shell.Main
import KernelProgramming.Proofs.Shell.Calls
import KernelProgramming.Proofs.Shell.Resume
import KernelProgramming.Proofs.Shell.Split

namespace Shell

open Fuel

variable {s s' : Sh} {cmd cmdline : CString} {async : Bool} {a : Answers}

/-! ### What `exec_job` does with a text -/

theorem splitOn_count (cmd : CString) : (cmd.splitOn '|').length = commandCount cmd := by
  induction cmd with
  | nil => rfl
  | cons c cmd ih =>
      unfold commandCount at ih ⊢
      rw [List.splitOn_cons_eq_if_modifyHead, List.count_cons]
      split
      · rw [List.length_cons, ih]
      · rw [List.length_modifyHead, ih, Nat.add_zero]

theorem pieces_count (cmd : CString) : (pieces cmd).length = commandCount cmd := by
  rw [← splitOn_count]
  unfold pieces
  cases cmd.splitOn '|' with
  | nil => rfl
  | cons first rest => simp

theorem actionFor_plan (cmd : Line) (async : Bool) :
    (actionFor [cmd] async).plan = planAlone cmd.text async := by
  unfold actionFor planAlone
  simp only
  cases execInternalCmd cmd.text <;> rfl

/-- **`plan` is what `exec_job` does.** -/
theorem dispatch_plan {line : Line} {front : Nat → Char} (hfront : line.text = [] → front 0 ≠ '&')
    (hfew : commandCount (cutAsync line.text).1 ≤ maxPipe) :
    ∃ action, Dispatches line front action ∧ action.plan = plan line.text := by
  rw [← pieces_count] at hfew
  obtain ⟨cmds, hsplits, htexts, -⟩ := splits_pieces hfront hfew
  have hlength := congrArg List.length htexts
  rw [List.length_map, pieces_count] at hlength
  rw [pieces_count] at hfew
  refine ⟨_, hsplits.dispatches, ?_⟩
  unfold plan
  simp only
  rw [if_neg (by omega)]
  by_cases hpipe : '|' ∈ (cutAsync line.text).1
  · rw [if_pos hpipe, ← hlength]
    have htwo : 2 ≤ cmds.length := by
      have hpos := List.count_pos_iff.mpr hpipe
      unfold commandCount at hlength
      omega
    match cmds, htwo with
    | _ :: _ :: _, _ => rfl
  · rw [if_neg hpipe]
    rw [pieces_of_notMem hpipe] at htexts
    obtain ⟨cmd, rfl, htext⟩ := List.map_eq_singleton_iff.mp htexts
    rw [actionFor_plan, htext]

/-- There is no room for the commands. -/
theorem dispatch_overrun {line : Line} {front : Nat → Char}
    (hfront : line.text = [] → front 0 ≠ '&')
    (hmany : maxPipe < commandCount (cutAsync line.text).1) :
    ∃ enough, ∀ fuel, enough ≤ fuel → dispatch line front fuel = none := by
  obtain ⟨enough, mem', ps, hloop, htexts, -⟩ := splitLoop_line hfront
  have hlength := congrArg List.length htexts
  rw [List.length_map, List.length_map, pieces_count] at hlength
  refine ⟨enough, fun fuel hfuel => ?_⟩
  unfold dispatch split
  simp only
  rw [splitLoop_eq_filter, hloop fuel hfuel, Option.filter_some_neg (by simp; omega)]
  rfl

theorem planAlone_exit_iff : planAlone cmd async = .exit ↔
    cmd = "exit".toList ∨ cmd = "exit &".toList := by
  unfold planAlone execInternalCmd
  by_cases hexit : cmd = "exit".toList ∨ cmd = "exit &".toList
  · rw [if_pos hexit]
    exact iff_of_true rfl hexit
  · rw [if_neg hexit]
    refine iff_of_false ?_ hexit
    split_ifs
    · simp [Action.plan]
    · cases strtok cmd with
      | nil => simp [Action.plan]
      | cons word args =>
          simp only
          split_ifs <;> simp [Action.plan]

theorem plan_exit_iff (h : (cutAsync cmdline).1 = cmd) : plan cmdline = .exit ↔
    cmd = "exit".toList ∨ cmd = "exit &".toList := by
  have hpipes : cmd = "exit".toList ∨ cmd = "exit &".toList →
      '|' ∉ cmd ∧ commandCount cmd ≤ maxPipe := by
    rintro (rfl | rfl) <;> decide
  unfold plan
  simp only [h]
  by_cases hexit : cmd = "exit".toList ∨ cmd = "exit &".toList
  · obtain ⟨hpipe, hfew⟩ := hpipes hexit
    rw [if_neg (by omega), if_neg hpipe]
    exact planAlone_exit_iff
  · refine iff_of_false ?_ hexit
    split_ifs
    · simp
    · simp
    · rw [planAlone_exit_iff]
      exact hexit

/-- Which lines make the shell exit. -/
theorem plan_trim_exit_iff {line : CString} (hsafe : ¬LosesLast line) :
    plan (trim line) = .exit ↔ ExitLine line := by
  rcases cutAsync_trim hsafe with ⟨cmd, hcmd, hcut⟩ | ⟨hlast, hcut⟩
  · rw [plan_exit_iff hcut]
    unfold ExitLine
    rw [hcmd]
    constructor
    · rintro (rfl | rfl)
      · exact Or.inl rfl
      · exact Or.inr (Or.inl rfl)
    · rintro (hexit | hexit | ⟨blanks, hpairs, rfl⟩)
      · exact Or.inl (List.append_left_injective ['&'] (hexit.trans rfl))
      · exact Or.inr (List.append_left_injective ['&'] (hexit.trans rfl))
      · rw [core_exit hpairs] at hcmd
        have hlast := congrArg List.getLast? hcmd
        simp at hlast
  · have hcore := (core_trim_iff line).mpr hsafe
    rw [plan_exit_iff hcut, trim_eq_exit_iff hsafe]
    unfold ExitLine
    constructor
    · rintro (hexit | hexit)
      · exact Or.inr (Or.inr hexit)
      · rw [← hcore, hexit] at hlast
        exact absurd (by decide) hlast
    · rintro (hexit | hexit | hexit)
      · rw [hexit] at hlast
        exact absurd (by decide) hlast
      · rw [hexit] at hlast
        exact absurd (by decide) hlast
      · exact Or.inl hexit

/-! ### When it comes back -/

/-- What is done with the text does not bring the shell down or to its end. -/
def Plan.ComesBack (s : Sh) (a : Answers) : Plan → Prop
  | .jobs => True
  | .cd => True
  | .resume argv _ =>
      a.killOk = true → ∀ pgid, resumePgid s argv a.garbage = some pgid → ListedGroup s pgid
  | .launch .. => reap s a.reapedLater ≠ none
  | .exit => False
  | .crash => False
  | .overrun => False

/-- `exec_job` comes back from the text: every child that it collects belongs to a job on the list,
and what is done then does not bring the shell down or to its end. -/
def ComesBack (s : Sh) (cmdline : CString) (a : Answers) : Prop :=
  if '|' ∈ (cutAsync cmdline).1 then (plan cmdline).ComesBack s a
  else ∃ s', reap s a.reaped = some s' ∧ (plan cmdline).ComesBack s' a

theorem waitJob_isSome (hhead : s.head ≠ []) (j : JobId) (status : WaitStatus) (report : Reports) :
    waitJob s j status report ≠ none := by
  obtain ⟨first, rest, hcons⟩ := List.exists_cons_of_ne_nil hhead
  have hafter : (afterWait s j status report).head = first :: rest := hcons
  rw [waitJob_eq]
  unfold finishWait popHead
  rw [hafter]
  split
  · simp
  · split <;> simp

/-- The loop that starts the commands does not follow a null pointer. -/
theorem launchLoop_isSome : ∀ (pids : List Int) (s : Sh) (pgid : Int),
    pgid = 0 ∧ pids ≠ [] ∨ s.head ≠ [] →
    ∃ s', launchLoop s pgid pids = some s' ∧ s'.head ≠ [] := by
  intro pids
  induction pids with
  | nil =>
      intro s pgid h
      exact ⟨s, rfl, h.resolve_left fun hboth => hboth.2 rfl⟩
  | cons pid rest ih =>
      intro s pgid h
      unfold launchLoop
      by_cases hpgid : pgid = 0
      · rw [if_pos hpgid]
        exact ih (newJob s pid) pid (Or.inr (List.cons_ne_nil _ _))
      · rw [if_neg hpgid]
        obtain ⟨first, later, hcons⟩ :=
          List.exists_cons_of_ne_nil (h.resolve_left fun hboth => hpgid hboth.1)
        unfold addProcess
        simp only [hcons, Option.bind_some]
        refine ih _ pgid (Or.inr ?_)
        show s.head ≠ []
        rw [hcons]
        exact List.cons_ne_nil _ _

theorem execJob_isSome (s : Sh) {pids : List Int} (hne : pids ≠ []) (async : Bool)
    (status : WaitStatus) (report : Reports) : execJob s pids async status report ≠ none := by
  obtain ⟨s', hloop, hhead⟩ := launchLoop_isSome pids s 0 (Or.inl ⟨rfl, hne⟩)
  unfold execJob
  rw [hloop, Option.bind_some]
  split
  · simp
  · exact waitJob_isSome hhead _ status report

/-- `fg` and `bg` follow a null pointer when they have signalled a group that is no job's. -/
theorem resume_isSome_iff (argv : List CString) (fg : Bool) (garbage : Int) (killOk : Bool)
    (status : WaitStatus) (report : Reports) :
    resume s argv fg garbage killOk status report ≠ none ↔
      (killOk = true → ∀ pgid, resumePgid s argv garbage = some pgid → ListedGroup s pgid) := by
  unfold resume
  cases resumePgid s argv garbage with
  | none => exact iff_of_true (by simp) (by simp)
  | some pgid =>
      cases killOk with
      | false => exact iff_of_true (by simp) (by simp)
      | true =>
          simp only [if_true, Option.some.injEq, forall_eq', forall_const, ← getJob_isSome_iff]
          cases hjob : getJob s pgid with
          | none => simp
          | some jb =>
              refine iff_of_true ?_ rfl
              have hhead : s.head ≠ [] := List.ne_nil_of_mem (getJob_mem hjob)
              simp only
              split
              · exact waitJob_isSome (s := markJobRunning s jb) hhead jb status report
              · simp

theorem ofOption_returned_iff {r : Option Sh} :
    (∃ s', Outcome.ofOption r = .returned s') ↔ r ≠ none := by
  cases r <;> simp [Outcome.ofOption]

theorem Plan.exec_returned_iff {p : Plan} (hlaunch : ∀ async, p ≠ .launch 0 async) :
    (∃ s', p.exec s a = .returned s') ↔ p.ComesBack s a := by
  cases p with
  | resume argv fg => exact ofOption_returned_iff.trans (resume_isSome_iff ..)
  | launch count async =>
      have hcount : (List.range count).map a.fork ≠ [] := by
        intro hnil
        rw [List.map_eq_nil_iff, List.range_eq_nil] at hnil
        exact hlaunch async (by rw [hnil])
      refine ofOption_returned_iff.trans ?_
      show Option.bind _ _ ≠ none ↔ reap s a.reapedLater ≠ none
      cases reap s a.reapedLater with
      | none => simp
      | some u =>
          rw [Option.bind_some]
          exact iff_of_true (execJob_isSome u hcount async a.status a.report) (by simp)
  | _ => simp [Plan.exec, Plan.ComesBack]

/-- A launch is one of some commands. -/
theorem plan_launch {count : Nat} (h : plan cmdline = .launch count async) : count ≠ 0 := by
  have halone : ∀ cmd async', planAlone cmd async' = .launch count async → count = 1 := by
    intro cmd async' halone
    unfold planAlone execInternalCmd at halone
    split_ifs at halone
    · simp [Action.plan] at halone
    · simp [Action.plan] at halone
    · cases hwords : strtok cmd with
      | nil => simp [hwords, Action.plan] at halone
      | cons word args =>
          simp only [hwords] at halone
          split_ifs at halone
          all_goals first | (simp [Action.plan] at halone; done) | skip
          exact (Plan.launch.inj halone).1.symm
  unfold plan at h
  simp only at h
  split_ifs at h
  · rw [← (Plan.launch.inj h).1]
    exact Nat.succ_ne_zero _
  · rw [halone _ _ h]
    decide

/-- **When `exec_job` comes back.** -/
theorem execLine_returned_iff :
    (∃ s', execLine s cmdline a = .returned s') ↔ ComesBack s cmdline a := by
  have hlaunch : ∀ async, plan cmdline ≠ .launch 0 async := fun async h => plan_launch h rfl
  unfold execLine ComesBack
  split_ifs
  · exact Plan.exec_returned_iff hlaunch
  · cases hreap : reap s a.reaped with
    | none => simp
    | some u =>
        simp only [Option.some.injEq, exists_eq_left']
        exact Plan.exec_returned_iff hlaunch

/-- The shell exits if it gets to the comparison. -/
theorem execLine_exited_iff :
    execLine s cmdline a = .exited ↔ plan cmdline = .exit ∧ reap s a.reaped ≠ none := by
  have hexec : ∀ u, (plan cmdline).exec u a = .exited ↔ plan cmdline = .exit := by
    intro u
    have hoption : ∀ r : Option Sh, Outcome.ofOption r ≠ .exited := by
      intro r
      cases r <;> simp [Outcome.ofOption]
    cases plan cmdline <;> simp [Plan.exec, hoption]
  unfold execLine
  split_ifs with hpipe
  · have hnot : plan cmdline ≠ .exit := by
      rw [Ne, plan_exit_iff rfl]
      rintro (hcut | hcut) <;> simp [hcut] at hpipe
    rw [hexec]
    exact iff_of_false hnot fun hboth => hnot hboth.1
  · cases hreap : reap s a.reaped with
    | none => simp
    | some u => simpa using hexec u

example : execLine start "bg 0".toList
    { reaped := []
      reapedLater := []
      fork := fun _ => 10
      killOk := true
      report := .all .exited
      garbage := 0
      status := .other } = .crashed := rfl

/-! ### The operations of the shell -/

/-- The operations a plan comes to. -/
def Plan.ops (a : Answers) : Plan → List Op
  | .resume argv fg => [.resume argv fg a.garbage a.killOk a.status a.report]
  | .launch count async =>
      [.reap a.reapedLater, .execJob ((List.range count).map a.fork) async a.status a.report]
  | _ => []

/-- The operations of one `exec_job`. -/
def lineOps (cmdline : CString) (a : Answers) : List Op :=
  if '|' ∈ (cutAsync cmdline).1 then (plan cmdline).ops a
  else .reap a.reaped :: (plan cmdline).ops a

theorem Plan.exec_of_run {p : Plan} (hback : p.ComesBack s a)
    (hrun : Runs.run step s (p.ops a) = some s') : p.exec s a = .returned s' := by
  cases p with
  | jobs => exact congrArg Outcome.returned (Option.some.inj hrun)
  | cd => exact congrArg Outcome.returned (Option.some.inj hrun)
  | exit => exact absurd hback id
  | crash => exact absurd hback id
  | overrun => exact absurd hback id
  | resume argv fg =>
      obtain ⟨u, hstep, hend⟩ := Option.bind_eq_some_iff.mp hrun
      obtain rfl : u = s' := Option.some.inj hend
      exact congrArg Outcome.ofOption (step_eq_some hstep).2
  | launch count async =>
      obtain ⟨u, hreap, hrest⟩ := Option.bind_eq_some_iff.mp hrun
      obtain ⟨v, hlaunch, hend⟩ := Option.bind_eq_some_iff.mp hrest
      obtain rfl : v = s' := Option.some.inj hend
      have hreap' : reap s a.reapedLater = some u := (step_eq_some hreap).2
      show Outcome.ofOption (Option.bind _ _) = _
      rw [hreap', Option.bind_some]
      exact congrArg Outcome.ofOption (step_eq_some hlaunch).2

/-- **A call that comes back is a run of the shell's operations**, when the answers are possible. -/
theorem execLine_of_run (hback : ComesBack s cmdline a)
    (hrun : Runs.run step s (lineOps cmdline a) = some s') :
    execLine s cmdline a = .returned s' := by
  unfold ComesBack at hback
  unfold lineOps at hrun
  unfold execLine
  split_ifs at hback hrun ⊢
  · exact Plan.exec_of_run hback hrun
  · obtain ⟨u, hreap, hback'⟩ := hback
    obtain ⟨v, hstep, hrest⟩ := Option.bind_eq_some_iff.mp hrun
    obtain rfl : u = v := Option.some.inj (hreap.symm.trans (step_eq_some hstep).2)
    rw [hreap]
    exact Plan.exec_of_run hback' hrest

end Shell
