/-
The two loops of `xmerge`, one system call at a time.

`Copies` and `CopyFails` say how one file is copied, call by call, with no number of
iterations in sight: every read and write succeeds until a read finds nothing, or one
of them fails.  The loop returns exactly when one of the two happens, and then with
the files it leads to.
-/
import KernelProgramming.Xmerge.Merge

namespace Xmerge

open Descriptors

variable {env : Env} {size : Nat} {inFd out fd : Int} {w w' w'' : World}

/-! ### Descriptors that stay open -/

/-- The descriptor is open. -/
def World.Open (w : World) (fd : Int) : Prop := w.lookup fd ≠ none

theorem World.lookup_natCast (w : World) (n : Nat) : w.lookup n = w.fds.file n := by
  unfold World.lookup
  rw [if_neg (by omega), Int.toNat_natCast]

theorem World.Open.nonneg (h : w.Open fd) : 0 ≤ fd := by
  by_contra hneg
  unfold World.Open World.lookup at h
  rw [if_pos (by omega)] at h
  exact h rfl

theorem World.lookup_set {content : FileId → Content} {opens reads writes n : Nat}
    {f : Option OpenFile} (fd : Int) :
    World.lookup ⟨content, w.fds.set n f, opens, reads, writes⟩ fd
      = if fd = n then f else w.lookup fd := by
  unfold World.lookup
  show (if fd < 0 then none else Function.update w.fds.file n f fd.toNat) = _
  by_cases heq : fd = n
  · rw [if_neg (by omega), if_pos heq, heq, Int.toNat_natCast, Function.update_self]
  · rw [if_neg heq]
    split
    · rfl
    · rw [Function.update_of_ne (by omega)]

/-- Putting a file under a number leaves everything open. -/
theorem Open.set {content : FileId → Content} {opens reads writes : Nat} {f : OpenFile}
    {n : Nat} (h : w.Open fd) :
    World.Open ⟨content, w.fds.set n (some f), opens, reads, writes⟩ fd := by
  unfold World.Open
  rw [World.lookup_set]
  split
  · simp
  · exact h

theorem ksysRead_open (env : Env) (size : Nat) (inFd : Int) (h : w.Open fd) :
    (ksysRead env w inFd size).2.2.Open fd := by
  unfold ksysRead
  split
  · exact h
  · split
    · exact h
    · exact Open.set h

theorem ksysWrite_open (env : Env) (out : Int) (buffer : Content) (h : w.Open fd) :
    (ksysWrite env w out buffer).2.Open fd := by
  unfold ksysWrite
  split
  · exact h
  · split
    · exact h
    · exact Open.set h

/-- An open that succeeds gives a descriptor that is open and was not. -/
theorem ksysOpen_open {path : FileId} {flags : Flags}
    (h : 0 ≤ (ksysOpen env w path flags).1) :
    (ksysOpen env w path flags).2.Open (ksysOpen env w path flags).1 ∧
      ¬w.Open (ksysOpen env w path flags).1 ∧
      ∀ fd, w.Open fd → (ksysOpen env w path flags).2.Open fd := by
  unfold ksysOpen at h ⊢
  split at h
  · rename_i e _
    have hpos := e.pos
    simp only at h
    omega
  · simp only
    refine ⟨?_, ?_, fun fd hfd => Open.set hfd⟩
    · unfold World.Open
      rw [World.lookup_natCast]
      show Function.update w.fds.file w.fds.lowest _ w.fds.lowest ≠ none
      rw [Function.update_self]
      simp
    · unfold World.Open
      rw [World.lookup_natCast, not_not]
      exact w.fds.lowest_free

theorem ksysClose_open (h : w.Open fd) (hne : fd ≠ inFd) : (ksysClose w inFd).2.Open fd := by
  unfold ksysClose
  split
  · exact h
  · rename_i f hopen
    have hopen' : w.Open inFd := by
      unfold World.Open
      rw [hopen]
      simp
    unfold World.Open
    show World.lookup ⟨w.content, w.fds.set inFd.toNat none, _, _, _⟩ fd ≠ none
    have hin := hopen'.nonneg
    rw [World.lookup_set, if_neg (by omega)]
    exact h

theorem ksysClose_fst (h : w.Open fd) : (ksysClose w fd).1 = 0 := by
  unfold ksysClose
  split
  · rename_i hnone
    exact absurd hnone h
  · rfl

theorem ksysClose_content (w : World) (fd : Int) : (ksysClose w fd).2.content = w.content := by
  unfold ksysClose
  split <;> rfl

/-! ### Copying a file -/

/-- Reads and writes succeed until there is nothing left to read. -/
inductive Copies (env : Env) (size : Nat) (inFd out : Int) : World → World → Prop
  | eof {w : World} (hread : (ksysRead env w inFd size).1 = 0) :
      Copies env size inFd out w (ksysRead env w inFd size).2.2
  | chunk {w w' : World} (hread : 0 < (ksysRead env w inFd size).1)
      (hwrite : 0 ≤ (ksysWrite env (ksysRead env w inFd size).2.2 out
        (ksysRead env w inFd size).2.1).1)
      (hrest : Copies env size inFd out (ksysWrite env (ksysRead env w inFd size).2.2 out
        (ksysRead env w inFd size).2.1).2 w') :
      Copies env size inFd out w w'

/-- A read or a write fails, with the answer `code`. -/
inductive CopyFails (env : Env) (size : Nat) (inFd out : Int) : World → Int → World → Prop
  | read {w : World} (hread : (ksysRead env w inFd size).1 < 0) :
      CopyFails env size inFd out w (ksysRead env w inFd size).1 (ksysRead env w inFd size).2.2
  | write {w : World} (hread : 0 < (ksysRead env w inFd size).1)
      (hwrite : (ksysWrite env (ksysRead env w inFd size).2.2 out
        (ksysRead env w inFd size).2.1).1 < 0) :
      CopyFails env size inFd out w
        (ksysWrite env (ksysRead env w inFd size).2.2 out (ksysRead env w inFd size).2.1).1
        (ksysWrite env (ksysRead env w inFd size).2.2 out (ksysRead env w inFd size).2.1).2
  | later {w w' : World} {code : Int} (hread : 0 < (ksysRead env w inFd size).1)
      (hwrite : 0 ≤ (ksysWrite env (ksysRead env w inFd size).2.2 out
        (ksysRead env w inFd size).2.1).1)
      (hrest : CopyFails env size inFd out (ksysWrite env (ksysRead env w inFd size).2.2 out
        (ksysRead env w inFd size).2.1).2 code w') :
      CopyFails env size inFd out w code w'

/-- One iteration of the `while` loop. -/
theorem copyLoop_succ (env : Env) (size : Nat) (inFd out : Int) (fuel : Nat) (w : World)
    (numBytes : Int) :
    copyLoop env size inFd out (fuel + 1) w numBytes
      = if (ksysRead env w inFd size).1 < 0 then
          some (.fail (ksysRead env w inFd size).1, numBytes, (ksysRead env w inFd size).2.2)
        else if (ksysRead env w inFd size).1 = 0 then
          some (.eof, numBytes, (ksysRead env w inFd size).2.2)
        else if (ksysWrite env (ksysRead env w inFd size).2.2 out
            (ksysRead env w inFd size).2.1).1 < 0 then
          some (.fail (ksysWrite env (ksysRead env w inFd size).2.2 out
            (ksysRead env w inFd size).2.1).1, numBytes,
            (ksysWrite env (ksysRead env w inFd size).2.2 out (ksysRead env w inFd size).2.1).2)
        else copyLoop env size inFd out fuel
          (ksysWrite env (ksysRead env w inFd size).2.2 out (ksysRead env w inFd size).2.1).2
          (int32 (numBytes + (ksysWrite env (ksysRead env w inFd size).2.2 out
            (ksysRead env w inFd size).2.1).1)) := rfl

/-- **More iterations do no harm.** -/
theorem copyLoop_mono : ∀ {fuel fuel' : Nat} {w : World} {numBytes : Int}
    {r : CopyExit × Int × World}, fuel ≤ fuel' →
    copyLoop env size inFd out fuel w numBytes = some r →
    copyLoop env size inFd out fuel' w numBytes = some r := by
  intro fuel
  induction fuel with
  | zero =>
      intro fuel' w numBytes r _ h
      simp [copyLoop] at h
  | succ fuel ih =>
      intro fuel' w numBytes r hle h
      obtain ⟨more, rfl⟩ : ∃ more, fuel' = more + 1 := ⟨fuel' - 1, by omega⟩
      rw [copyLoop_succ] at h ⊢
      split
      · rename_i hread
        rw [if_pos hread] at h
        exact h
      · rename_i hread
        rw [if_neg hread] at h
        split
        · rename_i hzero
          rw [if_pos hzero] at h
          exact h
        · rename_i hzero
          rw [if_neg hzero] at h
          split
          · rename_i hwrite
            rw [if_pos hwrite] at h
            exact h
          · rename_i hwrite
            rw [if_neg hwrite] at h
            exact ih (by omega) h

/-- What the loop has done when it returns. -/
theorem copyLoop_sound : ∀ {fuel : Nat} {w : World} {numBytes : Int} {exit : CopyExit}
    {numBytes' : Int} {w' : World},
    copyLoop env size inFd out fuel w numBytes = some (exit, numBytes', w') →
    (exit = .eof ∧ Copies env size inFd out w w') ∨
      ∃ code, exit = .fail code ∧ CopyFails env size inFd out w code w' := by
  intro fuel
  induction fuel with
  | zero =>
      intro w numBytes exit numBytes' w' h
      simp [copyLoop] at h
  | succ fuel ih =>
      intro w numBytes exit numBytes' w' h
      rw [copyLoop_succ] at h
      split at h
      · rename_i hread
        simp only [Option.some.injEq, Prod.mk.injEq] at h
        obtain ⟨rfl, -, rfl⟩ := h
        exact Or.inr ⟨_, rfl, CopyFails.read hread⟩
      · split at h
        · rename_i hzero
          simp only [Option.some.injEq, Prod.mk.injEq] at h
          obtain ⟨rfl, -, rfl⟩ := h
          exact Or.inl ⟨rfl, Copies.eof hzero⟩
        · rename_i hneg hzero
          have hpos : 0 < (ksysRead env w inFd size).1 := by omega
          split at h
          · rename_i hwrite
            simp only [Option.some.injEq, Prod.mk.injEq] at h
            obtain ⟨rfl, -, rfl⟩ := h
            exact Or.inr ⟨_, rfl, CopyFails.write hpos hwrite⟩
          · rename_i hwrite
            rcases ih h with ⟨rfl, hrest⟩ | ⟨code, rfl, hrest⟩
            · exact Or.inl ⟨rfl, Copies.chunk hpos (by omega) hrest⟩
            · exact Or.inr ⟨code, rfl, CopyFails.later hpos (by omega) hrest⟩

/-- A file that can be copied is copied. -/
theorem Copies.copyLoop (h : Copies env size inFd out w w') : ∀ numBytes,
    ∃ fuel numBytes', copyLoop env size inFd out fuel w numBytes = some (.eof, numBytes', w') := by
  induction h with
  | eof hread =>
      intro numBytes
      refine ⟨1, numBytes, ?_⟩
      rw [copyLoop_succ, if_neg (by omega), if_pos hread]
  | chunk hread hwrite _ ih =>
      intro numBytes
      obtain ⟨fuel, numBytes', hloop⟩ := ih (int32 (numBytes + _))
      refine ⟨fuel + 1, numBytes', ?_⟩
      rw [copyLoop_succ, if_neg (by omega), if_neg (by omega), if_neg (by omega)]
      exact hloop

theorem CopyFails.copyLoop {code : Int} (h : CopyFails env size inFd out w code w') :
    ∀ numBytes, ∃ fuel numBytes',
      copyLoop env size inFd out fuel w numBytes = some (.fail code, numBytes', w') := by
  induction h with
  | read hread =>
      intro numBytes
      refine ⟨1, numBytes, ?_⟩
      rw [copyLoop_succ, if_pos hread]
  | write hread hwrite =>
      intro numBytes
      refine ⟨1, numBytes, ?_⟩
      rw [copyLoop_succ, if_neg (by omega), if_neg (by omega), if_pos hwrite]
  | later hread hwrite _ ih =>
      intro numBytes
      obtain ⟨fuel, numBytes', hloop⟩ := ih (int32 (numBytes + _))
      refine ⟨fuel + 1, numBytes', ?_⟩
      rw [copyLoop_succ, if_neg (by omega), if_neg (by omega), if_neg (by omega)]
      exact hloop

/-- Copying closes nothing. -/
theorem copyLoop_open : ∀ {fuel : Nat} {w : World} {numBytes : Int} {r : CopyExit × Int × World},
    copyLoop env size inFd out fuel w numBytes = some r → w.Open fd → r.2.2.Open fd := by
  intro fuel
  induction fuel with
  | zero =>
      intro w numBytes r h
      simp [copyLoop] at h
  | succ fuel ih =>
      intro w numBytes r h hopen
      have hread := ksysRead_open env size inFd hopen
      have hwrite := ksysWrite_open env out (ksysRead env w inFd size).2.1 hread
      rw [copyLoop_succ] at h
      split at h
      · cases h
        exact hread
      · split at h
        · cases h
          exact hread
        · split at h
          · cases h
            exact hwrite
          · exact ih h hwrite

/-! ### Copying all the files -/

/-- The call that fails. -/
inductive FailingCall
  | opening
  | copying
  deriving DecidableEq, Repr

/-- While the files are copied to `out` a call fails, with the answer `code`; all the calls
before it have succeeded. -/
inductive FilesFail (env : Env) (size : Nat) (out : Int) :
    List FileId → World → FailingCall → Int → Prop
  | opening {path : FileId} {rest : List FileId} {w : World}
      (hopen : (ksysOpen env w path .rdonly).1 < 0) :
      FilesFail env size out (path :: rest) w .opening (ksysOpen env w path .rdonly).1
  | copying {path : FileId} {rest : List FileId} {w w' : World} {code : Int}
      (hopen : 0 ≤ (ksysOpen env w path .rdonly).1)
      (hcopy : CopyFails env size (ksysOpen env w path .rdonly).1 out
        (ksysOpen env w path .rdonly).2 code w') :
      FilesFail env size out (path :: rest) w .copying code
  | later {path : FileId} {rest : List FileId} {w w' : World} {call : FailingCall} {code : Int}
      (hopen : 0 ≤ (ksysOpen env w path .rdonly).1)
      (hcopy : Copies env size (ksysOpen env w path .rdonly).1 out
        (ksysOpen env w path .rdonly).2 w')
      (hrest : FilesFail env size out rest (ksysClose w' (ksysOpen env w path .rdonly).1).2 call
        code) :
      FilesFail env size out (path :: rest) w call code

/-- The call that fails and its answer, if the `for` loop is left for a label. -/
def FilesExit.failure : FilesExit → Option (FailingCall × Int)
  | .done => none
  | .close1 errno => some (.opening, errno)
  | .close2 _ errno => some (.copying, errno)

/-- One iteration of the `for` loop. -/
theorem filesLoop_cons (env : Env) (size fuel : Nat) (out : Int) (path : FileId)
    (rest : List FileId) (k : Kern) (numBytes : Int) (ofileCount : Nat) :
    filesLoop env size fuel out (path :: rest) k numBytes ofileCount
      = if (ksysOpen env k.world path .rdonly).1 < 0 then
          some (.close1 (ksysOpen env k.world path .rdonly).1, numBytes, ofileCount,
            (k.open env path .rdonly).2)
        else
          (copyLoop env size (ksysOpen env k.world path .rdonly).1 out fuel
              (ksysOpen env k.world path .rdonly).2 numBytes).bind fun r =>
            match r.1 with
            | .fail errno =>
                some (.close2 (ksysOpen env k.world path .rdonly).1 errno, r.2.1, ofileCount,
                  { (k.open env path .rdonly).2 with world := r.2.2 })
            | .eof =>
                filesLoop env size fuel out rest
                  ({ (k.open env path .rdonly).2 with world := r.2.2 }.close
                    (ksysOpen env k.world path .rdonly).1) r.2.1 (ofileCount + 1) := rfl

theorem filesLoop_mono {fuel fuel' : Nat} (hle : fuel ≤ fuel') : ∀ {files : List FileId} {k : Kern}
    {numBytes : Int} {ofileCount : Nat} {r : FilesExit × Int × Nat × Kern},
    filesLoop env size fuel out files k numBytes ofileCount = some r →
    filesLoop env size fuel' out files k numBytes ofileCount = some r := by
  intro files
  induction files with
  | nil =>
      intro k numBytes ofileCount r h
      exact h
  | cons path rest ih =>
      intro k numBytes ofileCount r h
      rw [filesLoop_cons] at h ⊢
      split
      · rename_i hopen
        rw [if_pos hopen] at h
        exact h
      · rename_i hopen
        rw [if_neg hopen] at h
        obtain ⟨c, hcopy, hrest⟩ := Option.bind_eq_some_iff.mp h
        rw [copyLoop_mono hle hcopy, Option.bind_some]
        obtain ⟨exit, numBytes', w'⟩ := c
        cases exit with
        | fail errno => exact hrest
        | eof => exact ih hrest

/-- What the loop has done when it is left for a label. -/
theorem filesLoop_sound {fuel : Nat} {call : FailingCall} {code : Int} : ∀ {files : List FileId}
    {k : Kern} {numBytes : Int} {ofileCount : Nat} {r : FilesExit × Int × Nat × Kern},
    filesLoop env size fuel out files k numBytes ofileCount = some r →
    r.1.failure = some (call, code) → FilesFail env size out files k.world call code := by
  intro files
  induction files with
  | nil =>
      intro k numBytes ofileCount r h hfail
      cases h
      simp [FilesExit.failure] at hfail
  | cons path rest ih =>
      intro k numBytes ofileCount r h hfail
      rw [filesLoop_cons] at h
      split at h
      · rename_i hopen
        cases h
        simp only [FilesExit.failure, Option.some.injEq, Prod.mk.injEq] at hfail
        obtain ⟨rfl, rfl⟩ := hfail
        exact FilesFail.opening hopen
      · rename_i hopen
        obtain ⟨⟨exit, numBytes', w'⟩, hcopy, hrest⟩ := Option.bind_eq_some_iff.mp h
        rcases copyLoop_sound hcopy with ⟨rfl, hcopies⟩ | ⟨errno, rfl, hfails⟩
        · exact FilesFail.later (by omega) hcopies (ih hrest hfail)
        · cases hrest
          simp only [FilesExit.failure, Option.some.injEq, Prod.mk.injEq] at hfail
          obtain ⟨rfl, rfl⟩ := hfail
          exact FilesFail.copying (by omega) hfails

/-- A call that fails is noticed. -/
theorem FilesFail.filesLoop {files : List FileId} {call : FailingCall} {code : Int}
    (h : FilesFail env size out files w call code) : ∀ (k : Kern) (numBytes : Int)
    (ofileCount : Nat), k.world = w → ∃ fuel r,
      filesLoop env size fuel out files k numBytes ofileCount = some r ∧
        r.1.failure = some (call, code) := by
  induction h with
  | @opening path rest w hopen =>
      rintro k numBytes ofileCount rfl
      have hloop := filesLoop_cons env size 0 out path rest k numBytes ofileCount
      rw [if_pos hopen] at hloop
      exact ⟨0, _, hloop, rfl⟩
  | @copying path rest w w' code hopen hcopy =>
      rintro k numBytes ofileCount rfl
      obtain ⟨fuel, numBytes', hcopied⟩ := hcopy.copyLoop numBytes
      have hloop := filesLoop_cons env size fuel out path rest k numBytes ofileCount
      rw [if_neg (by omega), hcopied] at hloop
      exact ⟨fuel, _, hloop, rfl⟩
  | @later path rest w w' call code hopen hcopy _ ih =>
      rintro k numBytes ofileCount rfl
      obtain ⟨fuel, numBytes', hcopied⟩ := hcopy.copyLoop numBytes
      obtain ⟨fuel', r, hrest, hfail⟩ := ih ({ (k.open env path .rdonly).2 with world := w' }.close
        (ksysOpen env k.world path .rdonly).1) numBytes' (ofileCount + 1) rfl
      refine ⟨max fuel fuel', r, ?_, hfail⟩
      rw [filesLoop_cons, if_neg (by omega), copyLoop_mono (le_max_left fuel fuel') hcopied]
      exact filesLoop_mono (le_max_right fuel fuel') hrest

end Xmerge
