/-
What `update_process_status` does to the job list.

The loops stop at the first job that has the pid, with the flags of that job alone,
for they are set again in front of each one.  So `prev` is the job before it, and
what happens then is a write to one link: the job is off the list, and the others
stand as they stood.  In this way the links do what `updateProcessStatus` does to the
list (`updateProcessStatus_refines`).

Where no job has the pid the flags are those set for a job that does not come, so
`terminated` is 1 and `cur` is null, and a null pointer is followed whatever the list
and `current` are.
-/
import KernelProgramming.Proofs.Shell.Calls
import KernelProgramming.Shell.Heap

namespace Shell

open Fuel

namespace Heap

variable {h : Heap} {l l₁ l₂ : List JobId} {jb : JobId} {pid : Int} {status : WaitStatus}

/-! ### The loops -/

/-- A process after the inner loop. -/
def record (pid : Int) (status : WaitStatus) (ps : Process) : Process :=
  if ps.pid = pid then changeStatus ps status else ps

/-- **The inner loop** in one step: the flags are those of the processes after it. -/
theorem processLoop_eq (pid : Int) (status : WaitStatus) (ps : List Process) : ∀ w : Search,
    processLoop pid status w ps =
      ({ w with
          found := w.found || ps.any (·.pid = pid)
          terminated := w.terminated && (ps.map (record pid status)).all (·.status = .terminated)
          stopped := w.stopped && (ps.map (record pid status)).all (·.status = .stopped) },
        ps.map (record pid status)) := by
  induction ps with
  | nil =>
      intro w
      simp [processLoop]
  | cons p rest ih =>
      intro w
      simp only [processLoop, ih, List.map_cons, List.all_cons, List.any_cons, Bool.and_assoc,
        Bool.or_assoc]
      rfl

theorem map_record_of_not {ps : List Process} (hps : ps.any (·.pid = pid) = false)
    (status : WaitStatus) : ps.map (record pid status) = ps := by
  refine (List.map_congr_left fun p hp => if_neg fun heq => ?_).trans (List.map_id ps)
  have hany : ps.any (·.pid = pid) = true := List.any_eq_true.mpr ⟨p, hp, decide_eq_true heq⟩
  rw [hps] at hany
  cases hany

/-- The variables when the loop comes to a job. -/
def fresh (prev cur : Option JobId) : Search where
  terminated := true
  stopped := true
  found := false
  prev := prev
  cur := cur

/-- A job without the pid is passed. -/
theorem searchLoop_pass (hjb : (h.job jb).hasPid pid = false) (status : WaitStatus)
    (prev : Option JobId) (fuel : ℕ) :
    searchLoop pid status (fuel + 1) h (fresh prev (some jb))
      = searchLoop pid status fuel h (fresh (some jb) (h.next jb)) := by
  have hany : (h.job jb).list.any (·.pid = pid) = false := hjb
  simp only [searchLoop, fresh, processLoop_eq, map_record_of_not hjb status, hany, Bool.or_false,
    Function.update_eq_self, Bool.false_eq_true, if_false]

/-- The jobs in front of the one that has the pid. -/
theorem searchLoop_front (hfront : ∀ j ∈ l, (h.job j).hasPid pid = false) (status : WaitStatus) :
    ∀ (prev : Option JobId) {p q : Option JobId}, Links.Seg h.next p l q → ∀ fuel,
      searchLoop pid status (fuel + l.length) h (fresh prev p)
        = searchLoop pid status fuel h (fresh (l.getLast?.or prev) q) := by
  induction l with
  | nil =>
      rintro prev p q rfl fuel
      rfl
  | cons j rest ih =>
      rintro prev p q ⟨rfl, hrest⟩ fuel
      have hj := hfront j (List.mem_cons_self ..)
      rw [List.length_cons, ← Nat.add_assoc, searchLoop_pass hj,
        ih (fun k hk => hfront k (List.mem_cons_of_mem _ hk)) (some j) hrest fuel]
      congr 2
      cases rest with
      | nil => rfl
      | cons k rest => simp [List.getLast?_cons]

/-- The heap after the inner loop over the job that has the pid. -/
def recorded (h : Heap) (jb : JobId) (pid : Int) (status : WaitStatus) : Heap :=
  { h with
    job := Function.update h.job jb
      { h.job jb with list := (h.job jb).list.map (record pid status) } }

@[simp] theorem recorded_job_self : ((h.recorded jb pid status).job jb)
    = { h.job jb with list := (h.job jb).list.map (record pid status) } :=
  Function.update_self ..

/-- The search ends at the first job with the pid. -/
theorem searchLoop_stop (hjb : (h.job jb).hasPid pid = true) (status : WaitStatus)
    (prev : Option JobId) (fuel : ℕ) :
    searchLoop pid status (fuel + 1) h (fresh prev (some jb))
      = some (h.recorded jb pid status,
          { terminated := ((h.recorded jb pid status).job jb).terminated
            stopped := ((h.recorded jb pid status).job jb).stopped
            found := true
            prev := prev
            cur := some jb }) := by
  have hany : (h.job jb).list.any (·.pid = pid) = true := hjb
  simp only [searchLoop, fresh, processLoop_eq, hany, Bool.or_true, Bool.true_and, if_true,
    recorded_job_self, Job.terminated, Job.stopped]
  rfl

/-- **When a job has the pid**, the code behind the loops runs with the flags of that job and
with the job in front of it. -/
theorem updateProcessStatus_found (hl : h.Lists (l₁ ++ jb :: l₂))
    (hfront : ∀ j ∈ l₁, (h.job j).hasPid pid = false) (hjb : (h.job jb).hasPid pid = true)
    (status : WaitStatus) :
    Gives (h.updateProcessStatus pid status)
      ((h.recorded jb pid status).finishUpdate
        { terminated := ((h.recorded jb pid status).job jb).terminated
          stopped := ((h.recorded jb pid status).job jb).stopped
          found := true
          prev := l₁.getLast?
          cur := some jb }) := by
  obtain ⟨q, hq, rfl, -⟩ := Links.seg_append.mp hl
  refine ⟨l₁.length + 1, fun fuel hfuel => ?_⟩
  obtain ⟨more, rfl⟩ : ∃ more, fuel = more + 1 + l₁.length := ⟨fuel - 1 - l₁.length, by omega⟩
  have hsearch := searchLoop_front hfront status none hq (more + 1)
  rw [Option.or_none, searchLoop_stop hjb] at hsearch
  unfold updateProcessStatus
  show (searchLoop pid status (more + 1 + l₁.length) h (fresh none h.head)).map _ = _
  rw [hsearch]
  rfl

/-! ### Behind the loops -/

theorem Lists.front_ne (hl : h.Lists (l₁ ++ jb :: l₂)) : jb ∉ l₁ := by
  intro hmem
  exact (List.nodup_append.mp hl.nodup).2.2 jb hmem jb (List.mem_cons_self ..) rfl

theorem Lists.next_eq (hl : h.Lists (l₁ ++ jb :: l₂)) : h.next jb = l₂.head? := by
  obtain ⟨q, -, -, hrest⟩ := Links.seg_append.mp hl
  exact hrest.head?

theorem moveCurrent_some (h : Heap) (jb : JobId) : h.moveCurrent (some jb)
    = some { h with current := if h.current = some jb then h.next jb else h.current } := by
  unfold moveCurrent follow
  split
  · rfl
  · rfl

/-- One link is written, and the list is the one without the job. -/
theorem unlink_lists (hl : h.Lists (l₁ ++ jb :: l₂)) :
    ∃ h', h.unlink l₁.getLast? (some jb) = some h' ∧ h'.Lists (l₁ ++ l₂) ∧ h'.job = h.job ∧
      h'.current = h.current ∧ h'.stderr = h.stderr := by
  rcases List.eq_nil_or_concat l₁ with rfl | ⟨front, b, rfl⟩
  · obtain ⟨hhead, hrest⟩ := hl
    refine ⟨{ h with head := h.next jb }, ?_, hrest, rfl, rfl, rfl⟩
    show (h.follow h.head).map _ = _
    rw [hhead]
    rfl
  · rw [List.concat_eq_append, List.append_assoc, List.singleton_append] at hl
    refine ⟨{ h with next := Function.update h.next b (h.next jb) }, ?_, ?_, rfl, rfl, rfl⟩
    · rw [List.concat_eq_append, List.getLast?_append_of_ne_nil _ (List.cons_ne_nil _ _)]
      rfl
    · rw [List.concat_eq_append, List.append_assoc, List.singleton_append]
      exact Links.Seg.unlink hl

/-- **A job whose processes have all terminated** is taken off the list. -/
theorem finishUpdate_terminated (hl : h.Lists (l₁ ++ jb :: l₂)) (stopped found : Bool) :
    ∃ h', h.finishUpdate ⟨true, stopped, found, l₁.getLast?, some jb⟩ = some h' ∧
      h'.Lists (l₁ ++ l₂) ∧ h'.job = h.job ∧
      h'.current = (if h.current = some jb then l₂.head? else h.current) ∧
      h'.stderr = h.stderr := by
  have hmoved : Lists { h with current := if h.current = some jb then h.next jb else h.current }
      (l₁ ++ jb :: l₂) := hl
  obtain ⟨h', hunlink, hlists, hjob, hcurrent, hstderr⟩ := unlink_lists hmoved
  refine ⟨h', ?_, hlists, hjob, ?_, hstderr⟩
  · unfold finishUpdate
    simp only [Option.some_ne_none, if_false, if_true, moveCurrent_some, Option.bind_some]
    exact hunlink
  · rw [hcurrent, ← hl.next_eq]

/-- Otherwise the links stay. -/
theorem finishUpdate_of_not (h : Heap) (stopped found : Bool) (prev : Option JobId) (jb : JobId) :
    h.finishUpdate ⟨false, stopped, found, prev, some jb⟩
      = some { h with current := if stopped then some jb else h.current } := by
  unfold finishUpdate
  cases stopped with
  | true => rfl
  | false => rfl

/-- What the call leaves on the list. -/
def remaining (h' : Heap) (l₁ : List JobId) (jb : JobId) (l₂ : List JobId) : List JobId :=
  if (h'.job jb).terminated then l₁ ++ l₂ else l₁ ++ jb :: l₂

/-- What the call makes of `current`. -/
def movedCurrent (h h' : Heap) (jb : JobId) (l₂ : List JobId) : Option JobId :=
  if (h'.job jb).terminated then if h.current = some jb then l₂.head? else h.current
  else if (h'.job jb).stopped then some jb else h.current

/-- **The call for a pid that a job has.** -/
theorem updateProcessStatus_of_hasPid (hl : h.Lists (l₁ ++ jb :: l₂))
    (hfront : ∀ j ∈ l₁, (h.job j).hasPid pid = false) (hjb : (h.job jb).hasPid pid = true)
    (status : WaitStatus) :
    ∃ h', Gives (h.updateProcessStatus pid status) (some h') ∧
      h'.job = (h.recorded jb pid status).job ∧ h'.Lists (remaining h' l₁ jb l₂) ∧
      h'.current = movedCurrent h h' jb l₂ ∧ h'.stderr = h.stderr := by
  have hgives := updateProcessStatus_found hl hfront hjb status
  have hrec : (h.recorded jb pid status).Lists (l₁ ++ jb :: l₂) := hl
  unfold remaining movedCurrent
  cases hterm : ((h.recorded jb pid status).job jb).terminated with
  | true =>
      rw [hterm] at hgives
      obtain ⟨h', hfinish, hlists, hjob, hcurrent, hstderr⟩ := finishUpdate_terminated hrec
        ((h.recorded jb pid status).job jb).stopped true
      rw [hfinish] at hgives
      refine ⟨h', hgives, hjob, ?_, ?_, hstderr⟩
      · rw [hjob, hterm]
        exact hlists
      · rw [hjob, hterm]
        exact hcurrent
  | false =>
      rw [hterm, finishUpdate_of_not] at hgives
      refine ⟨_, hgives, rfl, ?_, ?_, rfl⟩
      · show Lists _ (if ((h.recorded jb pid status).job jb).terminated then _ else _)
        rw [hterm]
        exact hl
      · show (if _ then _ else _)
          = if ((h.recorded jb pid status).job jb).terminated then _ else if
              ((h.recorded jb pid status).job jb).stopped then some jb else h.current
        rw [hterm]
        rfl

/-- **The call for a pid that no job has** follows a null pointer. -/
theorem updateProcessStatus_of_unknown (hl : h.Lists l)
    (hnone : ∀ j ∈ l, (h.job j).hasPid pid = false) (status : WaitStatus) :
    Gives (h.updateProcessStatus pid status) none := by
  refine ⟨l.length + 1, fun fuel hfuel => ?_⟩
  obtain ⟨more, rfl⟩ : ∃ more, fuel = more + 1 + l.length := ⟨fuel - 1 - l.length, by omega⟩
  have hsearch : searchLoop pid status (more + 1 + l.length) h (fresh none h.head)
      = some (h, fresh l.getLast? none) := by
    rw [searchLoop_front hnone status none hl (more + 1), Option.or_none]
    rfl
  unfold updateProcessStatus
  show (searchLoop pid status (more + 1 + l.length) h (fresh none h.head)).map _ = _
  rw [hsearch]
  -- `current` is null, or `prev` is the last job, or `head` is null
  show some (finishUpdate h (fresh l.getLast? none)) = some none
  cases hcurrent : h.current with
  | none => simp [finishUpdate, fresh, moveCurrent, hcurrent, follow]
  | some c =>
      cases l with
      | nil =>
          have hhead : h.head = none := hl
          simp [finishUpdate, fresh, moveCurrent, unlink, hcurrent, follow, hhead]
      | cons j rest =>
          simp [finishUpdate, fresh, moveCurrent, unlink, hcurrent, follow, List.getLast?_cons]

theorem mem_pids : pid ∈ h.pids l ↔ ∃ j ∈ l, (h.job j).hasPid pid = true := by
  unfold pids
  rw [List.mem_flatMap]
  exact exists_congr fun j => and_congr_right fun _ => hasPid_iff.symm

/-! ### The links and the list -/

theorem nextJob_append (hjb : jb ∉ l₁) : nextJob (l₁ ++ jb :: l₂) jb = l₂.head? := by
  induction l₁ with
  | nil => exact if_pos rfl
  | cons j rest ih =>
      rw [List.cons_append, nextJob, if_neg fun heq : j = jb => hjb (heq ▸ List.mem_cons_self ..)]
      exact ih fun hmem => hjb (List.mem_cons_of_mem _ hmem)

/-- What the call does to the list. -/
theorem updateProcessStatus_toSh (hl : h.Lists (l₁ ++ jb :: l₂))
    (hfind : (l₁ ++ jb :: l₂).find? (fun j => (h.job j).hasPid pid) = some jb)
    (status : WaitStatus) :
    Shell.updateProcessStatus (h.toSh (l₁ ++ jb :: l₂)) pid status
      = some (toSh
          { h.recorded jb pid status with
            current := movedCurrent h (h.recorded jb pid status) jb l₂ }
          (remaining (h.recorded jb pid status) l₁ jb l₂)) := by
  have hrec : recordStatus (h.toSh (l₁ ++ jb :: l₂)) jb pid status
      = (h.recorded jb pid status).toSh (l₁ ++ jb :: l₂) := rfl
  have hfind' : (h.toSh (l₁ ++ jb :: l₂)).head.find?
      (fun j => ((h.toSh (l₁ ++ jb :: l₂)).job j).hasPid pid) = some jb := hfind
  unfold Shell.updateProcessStatus remaining movedCurrent
  rw [hfind']
  simp only [hrec]
  unfold toSh
  split
  · rw [nextJob_append hl.front_ne, List.erase_append_right _ hl.front_ne, List.erase_cons_head]
    rfl
  · split
    · rfl
    · rfl

/-- The list of jobs is what the links make of it. -/
def Shows (h : Heap) (s : Sh) : Prop := h.Lists s.head ∧ h.toSh s.head = s

/-- **The links do what `updateProcessStatus` does to the list**, the fault included. -/
theorem updateProcessStatus_refines (hl : h.Lists l) (pid : Int) (status : WaitStatus) :
    ∃ r, Gives (h.updateProcessStatus pid status) r ∧
      Option.Rel Shows r (Shell.updateProcessStatus (h.toSh l) pid status) := by
  cases hfind : l.find? fun j => (h.job j).hasPid pid with
  | none =>
      have hnone : ∀ j ∈ l, (h.job j).hasPid pid = false := fun j hj =>
        Bool.eq_false_iff.mpr (List.find?_eq_none.mp hfind j hj)
      refine ⟨none, updateProcessStatus_of_unknown hl hnone status, ?_⟩
      have hfind' : (h.toSh l).head.find? (fun j => ((h.toSh l).job j).hasPid pid) = none := hfind
      unfold Shell.updateProcessStatus
      rw [hfind']
      exact .none
  | some jb =>
      obtain ⟨hjb, l₁, l₂, rfl, hfront⟩ := List.find?_eq_some_iff_append.mp hfind
      have hfront' : ∀ j ∈ l₁, (h.job j).hasPid pid = false := fun j hj => by
        simpa using hfront j hj
      obtain ⟨h', hgives, hjob, hlists, hcurrent, -⟩ :=
        updateProcessStatus_of_hasPid hl hfront' hjb status
      have hremaining : remaining h' l₁ jb l₂ = remaining (h.recorded jb pid status) l₁ jb l₂ := by
        unfold remaining
        rw [hjob]
      refine ⟨some h', hgives, ?_⟩
      rw [updateProcessStatus_toSh hl hfind status, ← hremaining]
      refine .some ⟨hlists, ?_⟩
      unfold toSh
      unfold movedCurrent at hcurrent ⊢
      rw [hcurrent, hjob]

/-! ### A recorded child -/

/-- `2` for exited or signalled, `1` for stopped, `0` otherwise. -/
def newStatus : WaitStatus → Status
  | .exited | .signaled => .terminated
  | .stopped => .stopped
  | .other => .running

theorem changeStatus_eq (ps : Process) (status : WaitStatus) :
    changeStatus ps status = { ps with status := newStatus status } := by
  cases status <;> rfl

/-- `current` is null or on the list. -/
def CurrentListed (h : Heap) (l : List JobId) : Prop := ∀ c, h.current = some c → c ∈ l

/-- What a call for a process of the job `jb` leaves behind: the status of that process is new,
the job is gone if all its processes are terminated, and `current` goes with it. -/
structure Updated (h h' : Heap) (status : WaitStatus) (l₁ : List JobId) (jb : JobId)
    (l₂ : List JobId) (before : List Process) (ps : Process) (after : List Process) : Prop where
  job : h'.job = Function.update h.job jb
    { h.job jb with list := before ++ { ps with status := newStatus status } :: after }
  lists : h'.Lists (remaining h' l₁ jb l₂)
  current : h'.current = movedCurrent h h' jb l₂
  stderr : h'.stderr = h.stderr

theorem map_record {before after : List Process} {ps : Process}
    (hpids : ((before ++ ps :: after).map Process.pid).Nodup) (status : WaitStatus) :
    (before ++ ps :: after).map (record ps.pid status)
      = before ++ { ps with status := newStatus status } :: after := by
  rw [List.map_append, List.map_cons] at hpids
  obtain ⟨-, hafter, hbefore⟩ := List.nodup_append.mp hpids
  have hsame : ∀ p : Process, p.pid ≠ ps.pid → record ps.pid status p = p := fun p hne => if_neg hne
  rw [List.map_append, List.map_cons]
  congr 1
  · refine (List.map_congr_left fun p hp => hsame p ?_).trans (List.map_id before)
    exact hbefore _ (List.mem_map_of_mem hp) _ (List.mem_cons_self ..)
  · congr 1
    · exact (if_pos rfl).trans (changeStatus_eq ps status)
    · refine (List.map_congr_left fun p hp => hsame p ?_).trans (List.map_id after)
      intro heq
      exact (List.nodup_cons.mp hafter).1 (heq ▸ List.mem_map_of_mem hp)

/-- `current` stays null or on the list. -/
theorem currentListed_of_moved {h' : Heap} (hcurrent : h'.current = movedCurrent h h' jb l₂)
    (hlisted : h.CurrentListed (l₁ ++ jb :: l₂)) :
    h'.CurrentListed (remaining h' l₁ jb l₂) := by
  intro c hc
  rw [hcurrent] at hc
  unfold movedCurrent at hc
  unfold remaining
  split at hc
  · rename_i hterm
    rw [if_pos hterm]
    split at hc
    · exact List.mem_append_right _ (List.mem_of_head? hc)
    · rename_i hne
      have hmem := hlisted c hc
      have hcjb : c ≠ jb := by
        rintro rfl
        exact hne hc
      simpa [hcjb] using hmem
  · rename_i hterm
    rw [if_neg hterm]
    split at hc
    · cases hc
      exact List.mem_append_right _ (List.mem_cons_self ..)
    · exact hlisted c hc

/-- **`update_process_status` keeps the job list**, for a pid that is recorded in it. -/
theorem updateProcessStatus_maintains (hl : h.Lists l) (hdistinct : (h.pids l).Nodup)
    (hpid : pid ∈ h.pids l) (status : WaitStatus) :
    ∃ l₁ jb l₂ before ps after h', l = l₁ ++ jb :: l₂ ∧
      (h.job jb).list = before ++ ps :: after ∧ ps.pid = pid ∧
      Gives (h.updateProcessStatus pid status) (some h') ∧
      Updated h h' status l₁ jb l₂ before ps after ∧
      (h.CurrentListed l → h'.CurrentListed (remaining h' l₁ jb l₂)) := by
  obtain ⟨j, hj, hjpid⟩ := mem_pids.mp hpid
  obtain ⟨jb, hfind⟩ := Option.isSome_iff_exists.mp
    (List.find?_isSome.mpr ⟨j, hj, hjpid⟩ : (l.find? fun j => (h.job j).hasPid pid).isSome)
  obtain ⟨hjb, l₁, l₂, rfl, hfront⟩ := List.find?_eq_some_iff_append.mp hfind
  have hfront' : ∀ j ∈ l₁, (h.job j).hasPid pid = false := fun j hj => by
    simpa using hfront j hj
  obtain ⟨h', hgives, hjob, hlists, hcurrent, hstderr⟩ :=
    updateProcessStatus_of_hasPid hl hfront' hjb status
  obtain ⟨ps, hps, rfl⟩ := List.mem_map.mp (hasPid_iff.mp hjb)
  obtain ⟨before, after, hlist⟩ := List.append_of_mem hps
  -- the pids of the job are among those of the list
  have hpids : ((before ++ ps :: after).map Process.pid).Nodup := by
    rw [← hlist]
    exact (List.nodup_flatMap.mp hdistinct).1 jb (List.mem_append_right _ (List.mem_cons_self ..))
  refine ⟨l₁, jb, l₂, before, ps, after, h', rfl, hlist, rfl, hgives, ⟨?_, hlists, hcurrent, hstderr⟩,
    currentListed_of_moved hcurrent⟩
  rw [hjob, ← map_record hpids status, ← hlist]
  rfl

/-- A pipeline of two that was launched behind a single command. -/
def twoJobs : Heap where
  next j := if j = 1 then some 0 else none
  job j :=
    if j = 0 then { pgid := 10, list := [⟨10, .running⟩] }
    else { pgid := 20, list := [⟨21, .terminated⟩, ⟨20, .running⟩] }
  head := some 1
  current := some 1
  stderr := []

theorem updateProcessStatus_maintains_twoJobs :
    ∃ l₁ jb l₂ before ps after h', [1, 0] = l₁ ++ jb :: l₂ ∧
      (twoJobs.job jb).list = before ++ ps :: after ∧ ps.pid = 20 ∧
      Gives (twoJobs.updateProcessStatus 20 .exited) (some h') ∧
      Updated twoJobs h' .exited l₁ jb l₂ before ps after ∧
      (twoJobs.CurrentListed [1, 0] → h'.CurrentListed (remaining h' l₁ jb l₂)) :=
  updateProcessStatus_maintains (h := twoJobs) (l := [1, 0]) ⟨rfl, rfl, rfl⟩ (by decide)
    (by decide) .exited

/-! ### An unknown child -/

/-- The call reports the problem and leaves everything else as it was. -/
def Harmless (h : Heap) (pid : Int) (status : WaitStatus) : Prop :=
  Gives (h.updateProcessStatus pid status)
    (some { h with stderr := h.stderr ++ ["Your code is incorrect!\n".toList] })

/-- **An unknown child is never harmless**: whatever the list and `current` are, the call ends
the shell. -/
theorem updateProcessStatus_unknown (hl : h.Lists l) (hpid : pid ∉ h.pids l)
    (status : WaitStatus) :
    Gives (h.updateProcessStatus pid status) none ∧ ¬ h.Harmless pid status := by
  have hnone : ∀ j ∈ l, (h.job j).hasPid pid = false := by
    intro j hj
    refine Bool.eq_false_iff.mpr fun hjpid => hpid ?_
    exact mem_pids.mpr ⟨j, hj, hjpid⟩
  have hgives := updateProcessStatus_of_unknown hl hnone status
  refine ⟨hgives, fun hharmless => ?_⟩
  cases hgives.unique hharmless

theorem updateProcessStatus_unknown_twoJobs :
    Gives (twoJobs.updateProcessStatus 30 .exited) none ∧ ¬ twoJobs.Harmless 30 .exited :=
  updateProcessStatus_unknown (h := twoJobs) (l := [1, 0]) ⟨rfl, rfl, rfl⟩ (by decide) .exited

/-- The shell before its first job. -/
def noJobs : Heap where
  next _ := none
  job _ := { pgid := 0, list := [] }
  head := none
  current := none
  stderr := []

theorem unknown_child_not_harmless :
    ¬ ∀ (h : Heap) (l : List JobId) (pid : Int) (status : WaitStatus),
        h.Lists l → pid ∉ h.pids l → h.Harmless pid status := by
  intro hall
  have hl : noJobs.Lists [] := rfl
  have hharmless := hall noJobs [] 30 .exited hl List.not_mem_nil
  have hfault : Gives (noJobs.updateProcessStatus 30 .exited) none :=
    updateProcessStatus_of_unknown hl (List.forall_mem_nil _) .exited
  cases hfault.unique hharmless

end Heap

end Shell
