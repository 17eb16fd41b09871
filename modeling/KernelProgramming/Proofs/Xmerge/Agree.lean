/-
Do the system call and the function in user space agree?

Their loops do, call for call: where one of them stores the answer of a call that has
failed, the other one has it in `errno`.  Then both clean up.  The system call closes
what it has opened.  The function closes `in` and `out` whatever has happened, and when
it was the open of an input that failed, `in` is -1.  That close fails as well and makes
`errno` `EBADF`, and this is what the function returns.

So the two agree exactly when no open of an input fails with another error
(`agree_iff`).
-/
import KernelProgramming.Proofs.Xmerge.Steps

namespace Xmerge

variable {env : Env} {size : Nat} {inFd out fd : Int} {w : World} {p : Params}

/-! ### The loops -/

/-- The process after what the system call has seen of the `while` loop. -/
def usrCopied (u : User) : CopyExit × Int × World → Bool × Int × User
  | (.eof, numBytes, w) => (false, numBytes, { u with world := w })
  | (.fail errno, numBytes, w) => (true, numBytes, { world := w, errno := -errno })

theorem libc_fail {u : User} {answer : Int} (h : answer < 0) (w : World) :
    libc u answer w = (-1, { world := w, errno := -answer }) := if_pos h

theorem libc_ok {u : User} {answer : Int} (h : ¬answer < 0) (w : World) :
    libc u answer w = (answer, { u with world := w }) := if_neg h

theorem usrCopyLoop_eq : ∀ (fuel : Nat) (u : User) (numBytes : Int),
    usrCopyLoop env size inFd out fuel u numBytes
      = (copyLoop env size inFd out fuel u.world numBytes).map (usrCopied u) := by
  intro fuel
  induction fuel with
  | zero =>
      intro u numBytes
      rfl
  | succ fuel ih =>
      intro u numBytes
      rw [copyLoop_succ]
      unfold usrCopyLoop User.read User.write
      simp only
      by_cases hread : (ksysRead env u.world inFd size).1 < 0
      · rw [libc_fail hread, if_pos hread]
        rfl
      · rw [libc_ok hread, if_neg hread, if_neg hread]
        by_cases hzero : (ksysRead env u.world inFd size).1 = 0
        · rw [if_pos hzero, if_pos hzero]
          rfl
        · rw [if_neg hzero, if_neg hzero]
          simp only
          by_cases hwrite : (ksysWrite env (ksysRead env u.world inFd size).2.2 out
              (ksysRead env u.world inFd size).2.1).1 < 0
          · rw [libc_fail hwrite, if_pos hwrite]
            rfl
          · rw [libc_ok hwrite, if_neg hwrite, if_neg hwrite, ih]
            -- `errno` is what it was.
            rfl

/-- A close that succeeds leaves `errno` alone. -/
theorem User.close_of_open {u : User} (h : u.world.Open fd) :
    u.close fd = { u with world := (ksysClose u.world fd).2 } := by
  unfold User.close
  simp only
  rw [libc_ok (by rw [ksysClose_fst h]; omega)]

theorem User.close_errno {u : User} (h : u.world.Open fd) : (u.close fd).errno = u.errno := by
  rw [User.close_of_open h]

theorem User.close_content {u : User} (h : u.world.Open fd) (f : FileId) :
    (u.close fd).world.content f = u.world.content f := by
  rw [User.close_of_open h, ksysClose_content]

/-- The process after what the system call has seen of the `for` loop. -/
def usrMerged (u : User) : FilesExit × Int × Nat × Kern → Option Int × Int × Nat × User
  | (.done, numBytes, ofileCount, k) => (none, numBytes, ofileCount, { u with world := k.world })
  | (.close1 errno, numBytes, ofileCount, k) =>
      (some (-1), numBytes, ofileCount, { world := k.world, errno := -errno })
  | (.close2 inFd errno, numBytes, ofileCount, k) =>
      (some inFd, numBytes, ofileCount, { world := k.world, errno := -errno })

theorem usrFilesLoop_eq {fuel : Nat} : ∀ (files : List FileId) (u : User) (k : Kern)
    (numBytes : Int) (ofileCount : Nat), u.world = k.world →
    usrFilesLoop env size fuel out files u numBytes ofileCount
      = (filesLoop env size fuel out files k numBytes ofileCount).map (usrMerged u) := by
  intro files
  induction files with
  | nil =>
      intro u k numBytes ofileCount hw
      show some (none, numBytes, ofileCount, u) = some (none, numBytes, ofileCount, _)
      rw [← hw]
  | cons path rest ih =>
      intro u k numBytes ofileCount hw
      rw [filesLoop_cons, ← hw]
      unfold usrFilesLoop User.open
      simp only
      by_cases hopen : (ksysOpen env u.world path .rdonly).1 < 0
      · rw [libc_fail hopen, if_pos hopen]
        have hstate : (k.open env path .rdonly).2.world = (ksysOpen env u.world path .rdonly).2 := by
          rw [hw]
          rfl
        show some _ = some _
        rw [← hstate]
        rfl
      · rw [libc_ok hopen, if_neg hopen, if_neg hopen]
        simp only
        rw [usrCopyLoop_eq]
        cases hcopy : copyLoop env size (ksysOpen env u.world path .rdonly).1 out fuel
            (ksysOpen env u.world path .rdonly).2 numBytes with
        | none => rfl
        | some r =>
            obtain ⟨exit, numBytes', w'⟩ := r
            cases exit with
            | fail errno => rfl
            | eof =>
                have hstill : w'.Open (ksysOpen env u.world path .rdonly).1 :=
                  copyLoop_open hcopy (ksysOpen_open (by omega)).1
                show usrFilesLoop env size fuel out rest
                  (User.close { u with world := w' } (ksysOpen env u.world path .rdonly).1)
                  numBytes' (ofileCount + 1) = _
                have hclose : User.close { u with world := w' }
                    (ksysOpen env u.world path .rdonly).1
                    = { u with world := (ksysClose w' (ksysOpen env u.world path .rdonly).1).2 } :=
                  User.close_of_open hstill
                rw [hclose, ih { u with world := (ksysClose w' _).2 }
                  ({ (k.open env path .rdonly).2 with world := w' }.close
                    (ksysOpen env u.world path .rdonly).1) numBytes' (ofileCount + 1) rfl]
                rw [Option.bind_some]
                congr 1

/-- The output stays open, and so does an input whose copy has failed. -/
theorem filesLoop_open {fuel : Nat} : ∀ {files : List FileId} {k : Kern} {numBytes : Int}
    {ofileCount : Nat} {r : FilesExit × Int × Nat × Kern},
    filesLoop env size fuel out files k numBytes ofileCount = some r → k.world.Open out →
    r.2.2.2.world.Open out ∧
      ∀ fd errno, r.1 = .close2 fd errno → r.2.2.2.world.Open fd ∧ fd ≠ out := by
  intro files
  induction files with
  | nil =>
      intro k numBytes ofileCount r h hopen
      cases h
      exact ⟨hopen, fun _ _ heq => absurd heq (by simp)⟩
  | cons path rest ih =>
      intro k numBytes ofileCount r h hout
      rw [filesLoop_cons] at h
      split at h
      · cases h
        refine ⟨?_, fun _ _ heq => absurd heq (by simp)⟩
        show (ksysOpen env k.world path .rdonly).2.Open out
        unfold ksysOpen
        split
        · exact hout
        · exact Open.set hout
      · rename_i hneg
        obtain ⟨hin, hnew, hstill⟩ := ksysOpen_open (show 0 ≤ (ksysOpen env k.world path .rdonly).1 by
          omega)
        have hne : (ksysOpen env k.world path .rdonly).1 ≠ out := by
          intro heq
          rw [heq] at hnew
          exact hnew hout
        obtain ⟨⟨exit, numBytes', w'⟩, hcopy, hrest⟩ := Option.bind_eq_some_iff.mp h
        have hout' : w'.Open out := copyLoop_open hcopy (hstill out hout)
        cases exit with
        | fail errno =>
            cases hrest
            refine ⟨hout', ?_⟩
            intro fd code heq
            simp only [FilesExit.close2.injEq] at heq
            rw [← heq.1]
            exact ⟨copyLoop_open hcopy hin, hne⟩
        | eof => exact ih hrest (ksysClose_open hout' hne.symm)

/-! ### The whole call -/

/-- What the caller sees: the value, `*ofile_count`, and the output file. -/
def Return.view {σ : Type} (world : σ → World) (p : Params) (r : Return σ) :
    Int × Option Nat × Content :=
  (r.value, r.ofileCount, (world r.state).content p.outfile)

/-- The value of the system call, by how the `for` loop was left. -/
def FilesExit.value (numBytes : Int) : FilesExit → Int
  | .done => numBytes
  | .close1 errno => errno
  | .close2 _ errno => errno

/-- The value of the function in user space. -/
def FilesExit.usrValue (numBytes : Int) : FilesExit → Int
  | .done => numBytes
  | .close1 _ => -Errno.ebadf.code
  | .close2 _ errno => errno

/-- The state in which the `for` loop starts. -/
def beforeFiles (env : Env) (k : Kern) (p : Params) : Kern :=
  (((k.note .kmalloc).note .copyFromUser).open env p.outfile p.oflags).2.setFs .kernelDs

theorem beforeFiles_world (env : Env) (k : Kern) (p : Params) :
    (beforeFiles env k p).world = (ksysOpen env k.world p.outfile p.oflags).2 := rfl

/-- The call in terms of its `for` loop. -/
theorem xmerge_eq (env : Env) (size fuel : Nat) (k : Kern) (p : Params) :
    xmerge env size fuel k p false
      = if (ksysOpen env k.world p.outfile p.oflags).1 < 0 then
          some (quit (((k.note .kmalloc).note .copyFromUser).open env p.outfile p.oflags).2
            (ksysOpen env k.world p.outfile p.oflags).1 none)
        else
          (filesLoop env size fuel (ksysOpen env k.world p.outfile p.oflags).1 p.infiles
              (beforeFiles env k p) 0 0).map
            (afterFiles k.limit (ksysOpen env k.world p.outfile p.oflags).1) := rfl

theorem xmerge_mono {fuel fuel' : Nat} {k : Kern} {r : Return Kern} (hle : fuel ≤ fuel')
    (h : xmerge env size fuel k p false = some r) :
    xmerge env size fuel' k p false = some r := by
  rw [xmerge_eq] at h ⊢
  split
  · rename_i hopen
    rw [if_pos hopen] at h
    exact h
  · rename_i hopen
    rw [if_neg hopen] at h
    obtain ⟨x, hloop, hx⟩ := Option.map_eq_some_iff.mp h
    rw [filesLoop_mono hle hloop, Option.map_some, hx]

/-- The number of iterations does not matter once the call returns. -/
theorem xmerge_unique {fuel fuel' : Nat} {k : Kern} {r r' : Return Kern}
    (h : xmerge env size fuel k p false = some r)
    (h' : xmerge env size fuel' k p false = some r') : r = r' := by
  have hr := xmerge_mono (le_max_left fuel fuel') h
  have hr' := xmerge_mono (le_max_right fuel fuel') h'
  exact Option.some.inj (hr.symm.trans hr')

/-- What follows the `for` loop changes neither the value, nor the count, nor the files. -/
theorem afterFiles_view (oldFs : Limit) (out numBytes : Int) (ofileCount : Nat)
    (exit : FilesExit) (k : Kern) :
    (afterFiles oldFs out (exit, numBytes, ofileCount, k)).view Kern.world p
      = (exit.value numBytes, some ofileCount, k.world.content p.outfile) := by
  cases exit with
  | done =>
      show (numBytes, some ofileCount, (ksysClose k.world out).2.content p.outfile) = _
      rw [ksysClose_content]
      rfl
  | close1 errno =>
      show (errno, some ofileCount, (ksysClose k.world out).2.content p.outfile) = _
      rw [ksysClose_content]
      rfl
  | close2 inFd errno =>
      show (errno, some ofileCount,
        (ksysClose (ksysClose k.world inFd).2 out).2.content p.outfile) = _
      rw [ksysClose_content, ksysClose_content]
      rfl

theorem xmerge_view (fuel : Nat) (k : Kern) :
    (xmerge env size fuel k p false).map (Return.view Kern.world p)
      = if (ksysOpen env k.world p.outfile p.oflags).1 < 0 then
          some ((ksysOpen env k.world p.outfile p.oflags).1, none,
            (ksysOpen env k.world p.outfile p.oflags).2.content p.outfile)
        else
          (filesLoop env size fuel (ksysOpen env k.world p.outfile p.oflags).1 p.infiles
              (beforeFiles env k p) 0 0).map fun r =>
            (r.1.value r.2.1, some r.2.2.1, r.2.2.2.world.content p.outfile) := by
  rw [xmerge_eq]
  split
  · rfl
  · rw [Option.map_map]
    congr 1
    funext r
    exact afterFiles_view k.limit _ r.2.1 r.2.2.1 r.1 r.2.2.2

/-- What the caller has seen when the call has returned. -/
theorem xmerge_cases {fuel : Nat} {k : Kern} {r : Return Kern}
    (h : xmerge env size fuel k p false = some r) :
    ((ksysOpen env k.world p.outfile p.oflags).1 < 0 ∧
        r.value = (ksysOpen env k.world p.outfile p.oflags).1) ∨
      (0 ≤ (ksysOpen env k.world p.outfile p.oflags).1 ∧ ∃ exit numBytes ofileCount k',
        filesLoop env size fuel (ksysOpen env k.world p.outfile p.oflags).1 p.infiles
            (beforeFiles env k p) 0 0 = some (exit, numBytes, ofileCount, k') ∧
          r.value = exit.value numBytes ∧ r.ofileCount = some ofileCount ∧
          r.state.world.content p.outfile = k'.world.content p.outfile) := by
  have hview : (xmerge env size fuel k p false).map (Return.view Kern.world p) = _ :=
    xmerge_view fuel k
  rw [h, Option.map_some] at hview
  split at hview
  · rename_i hopen
    exact Or.inl ⟨hopen, congrArg Prod.fst (Option.some.inj hview)⟩
  · rename_i hopen
    obtain ⟨⟨exit, numBytes, ofileCount, k'⟩, hloop, hx⟩ := Option.map_eq_some_iff.mp hview.symm
    refine Or.inr ⟨by omega, exit, numBytes, ofileCount, k', hloop, ?_, ?_, ?_⟩
    · exact (congrArg Prod.fst hx).symm
    · exact (congrArg (fun v => v.2.1) hx).symm
    · exact (congrArg (fun v => v.2.2) hx).symm

theorem usrXmerge_view (fuel : Nat) {k : Kern} {u : User} (hw : u.world = k.world) :
    (usrXmerge env size fuel u p).map (Return.view User.world p)
      = if (ksysOpen env k.world p.outfile p.oflags).1 < 0 then
          some ((ksysOpen env k.world p.outfile p.oflags).1, none,
            (ksysOpen env k.world p.outfile p.oflags).2.content p.outfile)
        else
          (filesLoop env size fuel (ksysOpen env k.world p.outfile p.oflags).1 p.infiles
              (beforeFiles env k p) 0 0).map fun r =>
            (r.1.usrValue r.2.1, some r.2.2.1, r.2.2.2.world.content p.outfile) := by
  unfold usrXmerge User.open
  simp only
  rw [hw]
  by_cases hopen : (ksysOpen env k.world p.outfile p.oflags).1 < 0
  · rw [libc_fail hopen, if_pos hopen]
    show some (- -(ksysOpen env k.world p.outfile p.oflags).1, none, _) = _
    rw [Int.neg_neg]
  · rw [libc_ok hopen, if_neg hopen]
    simp only
    rw [if_neg hopen, usrFilesLoop_eq p.infiles _ (beforeFiles env k p) 0 0 rfl]
    have hout := (ksysOpen_open (show 0 ≤ (ksysOpen env k.world p.outfile p.oflags).1 by omega)).1
    cases hloop : filesLoop env size fuel (ksysOpen env k.world p.outfile p.oflags).1 p.infiles
        (beforeFiles env k p) 0 0 with
    | none => rfl
    | some r =>
        obtain ⟨hstill, hboth⟩ := filesLoop_open hloop hout
        obtain ⟨exit, numBytes, ofileCount, k'⟩ := r
        cases exit with
        | done =>
            show some (numBytes, some ofileCount, (User.close { u with world := k'.world }
              (ksysOpen env k.world p.outfile p.oflags).1).world.content p.outfile) = _
            rw [User.close_content hstill]
            rfl
        | close1 errno =>
            -- Closing -1 fails and overwrites `errno`.
            show some (-(User.close { world := k'.world, errno := 9 }
                (ksysOpen env k.world p.outfile p.oflags).1).errno, some ofileCount,
              (User.close { world := k'.world, errno := 9 }
                (ksysOpen env k.world p.outfile p.oflags).1).world.content p.outfile) = _
            rw [User.close_errno hstill, User.close_content hstill]
            rfl
        | close2 inFd errno =>
            obtain ⟨hin, hne⟩ := hboth inFd errno rfl
            have hout' : (User.close { world := k'.world, errno := -errno } inFd).world.Open
                (ksysOpen env k.world p.outfile p.oflags).1 := by
              rw [User.close_of_open hin]
              exact ksysClose_open hstill hne.symm
            show some (-(User.close (User.close { world := k'.world, errno := -errno } inFd)
                (ksysOpen env k.world p.outfile p.oflags).1).errno, some ofileCount,
              (User.close (User.close { world := k'.world, errno := -errno } inFd)
                (ksysOpen env k.world p.outfile p.oflags).1).world.content p.outfile) = _
            rw [User.close_errno hout', User.close_errno hin, User.close_content hout',
              User.close_content hin, Int.neg_neg]
            rfl

/-! ### The failures -/

/-- A call fails with the answer `code`, and all the calls before it have succeeded. -/
inductive MergeFails (env : Env) (size : Nat) (w : World) (p : Params) : Int → Prop
  | output (hopen : (ksysOpen env w p.outfile p.oflags).1 < 0) :
      MergeFails env size w p (ksysOpen env w p.outfile p.oflags).1
  | files {call : FailingCall} {code : Int} (hopen : 0 ≤ (ksysOpen env w p.outfile p.oflags).1)
      (hfiles : FilesFail env size (ksysOpen env w p.outfile p.oflags).1 p.infiles
        (ksysOpen env w p.outfile p.oflags).2 call code) :
      MergeFails env size w p code

/-- The first call that fails is the open of an input. -/
def InputFails (env : Env) (size : Nat) (w : World) (p : Params) (code : Int) : Prop :=
  0 ≤ (ksysOpen env w p.outfile p.oflags).1 ∧
    FilesFail env size (ksysOpen env w p.outfile p.oflags).1 p.infiles
      (ksysOpen env w p.outfile p.oflags).2 .opening code

/-- Whatever happens, the two return together, with the same value, the same count and the
same output file; and when a call has failed the value is its answer. -/
structure Agree (env : Env) (size : Nat) (w : World) (p : Params) : Prop where
  same : ∀ (fuel : Nat) (k : Kern) (u : User), k.world = w → u.world = w →
    (xmerge env size fuel k p false).map (Return.view Kern.world p)
      = (usrXmerge env size fuel u p).map (Return.view User.world p)
  code : ∀ (fuel : Nat) (k : Kern) (r : Return Kern) (code : Int), k.world = w →
    xmerge env size fuel k p false = some r → MergeFails env size w p code → r.value = code

theorem FilesExit.eq_close1 {exit : FilesExit} {code : Int}
    (h : exit.failure = some (.opening, code)) : exit = .close1 code := by
  cases exit with
  | done => simp [FilesExit.failure] at h
  | close1 errno =>
      simp only [FilesExit.failure, Option.some.injEq, Prod.mk.injEq, true_and] at h
      rw [h]
  | close2 inFd errno => simp [FilesExit.failure] at h

theorem FilesExit.value_of_failure {exit : FilesExit} {call : FailingCall} {code : Int}
    (h : exit.failure = some (call, code)) (numBytes : Int) : exit.value numBytes = code := by
  cases exit with
  | done => simp [FilesExit.failure] at h
  | close1 errno =>
      simp only [FilesExit.failure, Option.some.injEq, Prod.mk.injEq] at h
      exact h.2
  | close2 inFd errno =>
      simp only [FilesExit.failure, Option.some.injEq, Prod.mk.injEq] at h
      exact h.2

/-- The number of iterations does not matter once the loop returns. -/
theorem filesLoop_unique {fuel fuel' : Nat} {files : List FileId} {k : Kern} {numBytes : Int}
    {ofileCount : Nat} {r r' : FilesExit × Int × Nat × Kern}
    (h : filesLoop env size fuel out files k numBytes ofileCount = some r)
    (h' : filesLoop env size fuel' out files k numBytes ofileCount = some r') : r = r' := by
  have hr := filesLoop_mono (le_max_left fuel fuel') h
  have hr' := filesLoop_mono (le_max_right fuel fuel') h'
  exact Option.some.inj (hr.symm.trans hr')

/-- The system call returns the answer of the call that has failed. -/
theorem xmerge_code {fuel : Nat} {k : Kern} {r : Return Kern} {code : Int}
    (h : xmerge env size fuel k p false = some r) (hfails : MergeFails env size k.world p code) :
    r.value = code := by
  cases hfails with
  | output hopen =>
      rcases xmerge_cases h with ⟨-, hvalue⟩ | ⟨hnonneg, -⟩
      · exact hvalue
      · omega
  | @files call code hopen hfiles =>
      rcases xmerge_cases h with ⟨hneg, -⟩ | ⟨-, exit, numBytes, ofileCount, k', hloop, hvalue, -, -⟩
      · omega
      · obtain ⟨fuel', y, hy, hfail⟩ := hfiles.filesLoop (beforeFiles env k p) 0 0 rfl
        obtain rfl := filesLoop_unique hloop hy
        rw [hvalue]
        exact FilesExit.value_of_failure hfail _

/--
**The two implementations.**  They return together, with the same value, the same count
and the same output, and the value is the answer of the call that has failed, exactly when
the first call that fails is not the open of an input with another error than `EBADF`.
-/
theorem agree_iff : Agree env size w p ↔
    ∀ code, InputFails env size w p code → code = -Errno.ebadf.code := by
  constructor
  · rintro ⟨hsame, -⟩ code ⟨hopen, hfails⟩
    obtain ⟨fuel, r, hloop, hfail⟩ := hfails.filesLoop
      (beforeFiles env ⟨w, .userDs, []⟩ p) 0 0 rfl
    have hview := hsame fuel ⟨w, .userDs, []⟩ ⟨w, 0⟩ rfl rfl
    rw [xmerge_view, usrXmerge_view fuel (k := ⟨w, .userDs, []⟩) rfl, if_neg (by simp only; omega),
      if_neg (by simp only; omega), hloop, Option.map_some, Option.map_some] at hview
    have hvalue := congrArg Prod.fst (Option.some.inj hview)
    simp only [FilesExit.eq_close1 hfail] at hvalue
    exact hvalue
  · intro hinput
    refine ⟨?_, ?_⟩
    · rintro fuel k u rfl hu
      rw [xmerge_view, usrXmerge_view fuel hu]
      split
      · rfl
      · rename_i hopen
        cases hloop : filesLoop env size fuel (ksysOpen env k.world p.outfile p.oflags).1 p.infiles
            (beforeFiles env k p) 0 0 with
        | none => rfl
        | some r =>
            obtain ⟨exit, numBytes, ofileCount, k'⟩ := r
            cases exit with
            | done => rfl
            | close2 inFd errno => rfl
            | close1 errno =>
                have hfails := filesLoop_sound hloop (rfl : FilesExit.failure (.close1 errno)
                  = some (.opening, errno))
                have hcode := hinput errno ⟨by omega, hfails⟩
                rw [hcode]
                rfl
    · rintro fuel k r code rfl h hfails
      exact xmerge_code h hfails

/-- The only input is missing: the system call says so, and the function in user space says
that a descriptor is bad. -/
theorem agree_fails_without_input :
    ¬Agree { opens := fun n => if n = 0 then none else some ⟨2, by decide, by decide⟩,
             reads := fun _ => .upTo 1024, writes := fun _ => .upTo 1024 }
      1024 (.idle fun _ => [])
      { outfile := 1, infiles := [2], oflags := { append := true, trunc := false },
        few := by decide } := by
  intro hagree
  have hview := hagree.same 1 ⟨.idle fun _ => [], .userDs, []⟩ ⟨.idle fun _ => [], 0⟩ rfl rfl
  revert hview
  decide

end Xmerge
