/-
The stages of a pipeline are connected to each other and to nothing else.

A child makes the pipe before it its descriptor 0 and the pipe after it its
descriptor 1 by closing the number and duplicating the end it wants, which goes
where it should because `dup` takes the lowest free number.  The shell closes the
write end of each pipe before it makes the next one, so no later child inherits
it, and the child that writes to it closes the number it came under.  So when the
writer of a pipe ends, its reader sees the end of the file.
-/
import KernelProgramming.Shell.Launch

namespace Shell

open Descriptors

variable {t : Table File} {count i : Nat} {l : Launch}

/-- The table of stage `i` of a pipeline of `count` commands, as the stage enters
`process_cmd`, when the shell's table was `t`. -/
structure StageWired (t : Table File) (count i : Nat) (stage : Table File) : Prop where
  stdin : stage.file 0 = if i = 0 then t.file 0 else some (.readEnd (i - 1))
  stdout : stage.file 1 = if i = count - 1 then t.file 1 else some (.writeEnd i)
  writeEnds : ∀ j fd, j + 1 < count → stage.file fd = some (.writeEnd j) → j = i ∧ fd = 1

/-- The whole pipeline: there is one child for each command, every child is wired, and the
shell has no write end left. -/
structure Wired (t : Table File) (count : Nat) (l : Launch) : Prop where
  stages : l.stages.length = count
  stage : ∀ i stage, l.stages[i]? = some stage → StageWired t count i stage
  shell : ∀ i, ¬l.shell.Holds (.writeEnd i)

/-- A shell that has its three standard descriptors and knows no pipe of this pipeline. -/
structure Standard (t : Table File) : Prop where
  std : ∀ fd, fd < 3 → t.file fd ≠ none
  outside : ∀ fd f, t.file fd = some f → ∃ id, f = .outside id

/-- The shell before iteration `i`: it has what it had, no write end of a pipe, and in `in`
the read end of the pipe before. -/
structure Between (t : Table File) (i : Nat) (l : Launch) : Prop where
  kept : ∀ fd, t.file fd ≠ none → l.shell.file fd = t.file fd
  noWriteEnd : ∀ fd j, l.shell.file fd ≠ some (.writeEnd j)
  input : i ≠ 0 → l.shell.file l.input = some (.readEnd (i - 1)) ∧ 2 ≤ l.input

namespace Between

theorem std_open (h : Between t i l) (ht : Standard t) {fd : Nat} (hfd : fd < 3) :
    l.shell.file fd ≠ none := by
  rw [h.kept fd (ht.std fd hfd)]
  exact ht.std fd hfd

theorem start (ht : Standard t) : Between t 0 { shell := t, input := 0, stages := [] } := by
  refine ⟨fun _ _ => rfl, ?_, fun hne => absurd rfl hne⟩
  intro fd j hfile
  obtain ⟨id, hid⟩ := ht.outside fd _ hfile
  simp at hid

end Between

/-! ### The child

The numbers the child closes and those it redirects are all different: `fd[0]` was
free when `in` was open, `fd[1]` was free when `fd[0]` was open, and 0 and 1 have been
open all the time.
-/

/-- What the child has at `fd` before it rewires anything. -/
theorem piped_file (l : Launch) (i fd : Nat) :
    ((l.shell.alloc (.readEnd i)).2.alloc (.writeEnd i)).2.file fd
      = if fd = (l.shell.alloc (.readEnd i)).2.lowest then some (.writeEnd i)
        else if fd = l.shell.lowest then some (.readEnd i)
        else l.shell.file fd := by
  show Function.update (Function.update l.shell.file l.shell.lowest (some (File.readEnd i)))
    (l.shell.alloc (.readEnd i)).2.lowest (some (.writeEnd i)) fd = _
  simp only [Function.update_apply]

/-- The only write end in front of the child is that of its own pipe. -/
theorem Between.piped_writeEnd (h : Between t i l) {fd j : Nat}
    (hfile : ((l.shell.alloc (.readEnd i)).2.alloc (.writeEnd i)).2.file fd = some (.writeEnd j)) :
    fd = (l.shell.alloc (.readEnd i)).2.lowest ∧ j = i := by
  rw [piped_file] at hfile
  split at hfile
  · rename_i hfd
    simp only [Option.some.injEq, File.writeEnd.injEq] at hfile
    exact ⟨hfd, hfile.symm⟩
  · split at hfile
    · simp at hfile
    · exact absurd hfile (h.noWriteEnd fd j)

/-- The two numbers a pipe gets are not in use, and they differ. -/
theorem piped_fresh (l : Launch) (i : Nat) {fd : Nat} (hopen : l.shell.file fd ≠ none) :
    fd ≠ l.shell.lowest ∧ fd ≠ (l.shell.alloc (.readEnd i)).2.lowest ∧
      l.shell.lowest ≠ (l.shell.alloc (.readEnd i)).2.lowest := by
  have hfile : ∀ q, (l.shell.alloc (.readEnd i)).2.file q
      = Function.update l.shell.file l.shell.lowest (some (.readEnd i)) q := fun _ => rfl
  have hne : fd ≠ l.shell.lowest := Table.ne_lowest hopen
  refine ⟨hne, Table.ne_lowest ?_, Table.ne_lowest ?_⟩
  · rw [hfile, Function.update_of_ne hne]
    exact hopen
  · rw [hfile, Function.update_self]
    simp

/-- What the child does with its standard input. -/
def stdinWired (t : Table File) (i input fd0 : Nat) : Table File :=
  if i ≠ 0 then (((t.close 0).dup input).close fd0).close input else t

theorem stdinWired_file {t : Table File} {i input : Nat} {f : File}
    (hinput : i ≠ 0 → t.file input = some f ∧ input ≠ 0) (fd0 fd : Nat) :
    (stdinWired t i input fd0).file fd
      = if i = 0 then t.file fd
        else if fd = input then none
        else if fd = fd0 then none
        else if fd = 0 then some f
        else t.file fd := by
  unfold stdinWired
  by_cases hi : i = 0
  · rw [if_neg (by simpa using hi), if_pos hi]
  · obtain ⟨hfile, hne⟩ := hinput hi
    rw [if_pos hi, if_neg hi]
    have hbelow : ∀ other, other < 0 → t.file other ≠ none :=
      fun other hlt => absurd hlt (Nat.not_lt_zero other)
    have hdup := Table.close_dup hfile hne hbelow
    show Function.update (Function.update ((t.close 0).dup input).file fd0 none) input none fd = _
    rw [hdup]
    simp only [Function.update_apply]

theorem stdoutWired_file {t : Table File} {fd1 : Nat} {f : File} (hzero : t.file 0 ≠ none)
    (hfile : t.file fd1 = some f) (hne : fd1 ≠ 1) (fd : Nat) :
    (((t.close 1).dup fd1).close fd1).file fd
      = if fd = fd1 then none else if fd = 1 then some f else t.file fd := by
  have hbelow : ∀ other, other < 1 → t.file other ≠ none := by
    intro other hlt
    have hother : other = 0 := by omega
    rw [hother]
    exact hzero
  have hdup := Table.close_dup hfile hne hbelow
  show Function.update ((t.close 1).dup fd1).file fd1 none fd = _
  rw [hdup]
  simp only [Function.update_apply]

/-- The child between its two halves: 0 is what it should be, 1 is the shell's, and the only
write end is that of its own pipe, under the number `fd[1]`. -/
theorem stdinWired_between (h : Between t i l) (ht : Standard t) {m : Table File}
    (hm : m = stdinWired ((l.shell.alloc (.readEnd i)).2.alloc (.writeEnd i)).2 i l.input
      l.shell.lowest) :
    m.file 0 = (if i = 0 then t.file 0 else some (.readEnd (i - 1))) ∧ m.file 1 = t.file 1 ∧
      m.file (l.shell.alloc (.readEnd i)).2.lowest = some (.writeEnd i) ∧
      ∀ fd j, m.file fd = some (.writeEnd j) →
        fd = (l.shell.alloc (.readEnd i)).2.lowest ∧ j = i := by
  obtain ⟨h00, h01, hpair⟩ := piped_fresh l i (h.std_open ht (show 0 < 3 by omega))
  obtain ⟨h10, h11, -⟩ := piped_fresh l i (h.std_open ht (show 1 < 3 by omega))
  have hkeep0 := h.kept 0 (ht.std 0 (by omega))
  have hkeep1 := h.kept 1 (ht.std 1 (by omega))
  have hin : i ≠ 0 → l.input ≠ (l.shell.alloc (.readEnd i)).2.lowest ∧ 2 ≤ l.input ∧
      ((l.shell.alloc (.readEnd i)).2.alloc (.writeEnd i)).2.file l.input
        = some (.readEnd (i - 1)) := by
    intro hi
    obtain ⟨hfile, hge⟩ := h.input hi
    obtain ⟨hne0, hne1, -⟩ := piped_fresh l i (show l.shell.file l.input ≠ none by simp [hfile])
    refine ⟨hne1, hge, ?_⟩
    rw [piped_file, if_neg hne1, if_neg hne0]
    exact hfile
  have hwired := stdinWired_file
    (fun hi => ⟨(hin hi).2.2, by have := (hin hi).2.1; omega⟩) l.shell.lowest
  rw [← hm] at hwired
  refine ⟨?_, ?_, ?_, ?_⟩
  · rw [hwired 0]
    by_cases hi : i = 0
    · rw [if_pos hi, if_pos hi, piped_file, if_neg h01, if_neg h00, hkeep0]
    · have hge := (hin hi).2.1
      rw [if_neg hi, if_neg hi, if_neg (by omega), if_neg h00, if_pos rfl]
  · rw [hwired 1]
    have hpiped : ((l.shell.alloc (.readEnd i)).2.alloc (.writeEnd i)).2.file 1 = t.file 1 := by
      rw [piped_file, if_neg h11, if_neg h10, hkeep1]
    by_cases hi : i = 0
    · rw [if_pos hi, hpiped]
    · have hge := (hin hi).2.1
      rw [if_neg hi, if_neg (by omega), if_neg h10, if_neg (by omega), hpiped]
  · rw [hwired]
    have hpiped : ((l.shell.alloc (.readEnd i)).2.alloc (.writeEnd i)).2.file
        (l.shell.alloc (.readEnd i)).2.lowest = some (.writeEnd i) := by
      rw [piped_file, if_pos rfl]
    by_cases hi : i = 0
    · rw [if_pos hi, hpiped]
    · rw [if_neg hi, if_neg (hin hi).1.symm, if_neg hpair.symm, if_neg h01.symm, hpiped]
  · intro fd j hfile
    refine h.piped_writeEnd ?_
    rw [hwired fd] at hfile
    split at hfile
    · exact hfile
    · split at hfile
      · simp at hfile
      · split at hfile
        · simp at hfile
        · split at hfile
          · simp at hfile
          · exact hfile

variable (count) in
/-- **The child of iteration `i` is wired.** -/
theorem childTable_wired (h : Between t i l) (ht : Standard t) :
    StageWired t count i (childTable ((l.shell.alloc (.readEnd i)).2.alloc (.writeEnd i)).2 i count
      l.input l.shell.lowest (l.shell.alloc (.readEnd i)).2.lowest) := by
  obtain ⟨-, h11, -⟩ := piped_fresh l i (h.std_open ht (show 1 < 3 by omega))
  obtain ⟨h00, h01, -⟩ := piped_fresh l i (h.std_open ht (show 0 < 3 by omega))
  generalize hm : stdinWired ((l.shell.alloc (.readEnd i)).2.alloc (.writeEnd i)).2 i l.input
    l.shell.lowest = m
  obtain ⟨hzero, hone, hwrite, honly⟩ := stdinWired_between h ht hm.symm
  have hchild : childTable ((l.shell.alloc (.readEnd i)).2.alloc (.writeEnd i)).2 i count
      l.input l.shell.lowest (l.shell.alloc (.readEnd i)).2.lowest
      = if i ≠ count - 1 then
          ((m.close 1).dup (l.shell.alloc (.readEnd i)).2.lowest).close
            (l.shell.alloc (.readEnd i)).2.lowest
        else m := by
    rw [← hm]
    rfl
  rw [hchild]
  by_cases hlast : i = count - 1
  · -- The last stage keeps the shell's output, and the write end of a pipe nobody reads.
    rw [if_neg (by simpa using hlast)]
    refine ⟨hzero, ?_, ?_⟩
    · rw [hone, if_pos hlast]
    · intro j fd hj hfile
      have := (honly fd j hfile).2
      omega
  · rw [if_pos hlast]
    have hopen : m.file 0 ≠ none := by
      rw [hzero]
      split
      · exact ht.std 0 (by omega)
      · simp
    have hwired := stdoutWired_file hopen hwrite h11.symm
    refine ⟨?_, ?_, ?_⟩
    · rw [hwired, if_neg h01, if_neg (by omega), hzero]
    · rw [hwired, if_neg h11, if_pos rfl, if_neg hlast]
    · intro j fd _ hfile
      rw [hwired] at hfile
      split at hfile
      · simp at hfile
      · rename_i hfd
        split at hfile
        · rename_i h1
          simp only [Option.some.injEq, File.writeEnd.injEq] at hfile
          exact ⟨hfile.symm, h1⟩
        · exact absurd (honly fd j hfile).1 hfd

/-! ### The loop -/

/-- An iteration leaves the shell as the next one expects it. -/
theorem launchStage_between (h : Between t i l) (ht : Standard t) :
    Between t (i + 1) (launchStage count i l) := by
  have hshell : (launchStage count i l).shell.file
      = Function.update l.shell.file l.shell.lowest (some (.readEnd i)) :=
    Table.close_alloc (l.shell.alloc (.readEnd i)).2 (.writeEnd i)
  refine ⟨?_, ?_, ?_⟩
  · intro fd hopen
    have hfd : l.shell.file fd ≠ none := by
      rw [h.kept fd hopen]
      exact hopen
    rw [hshell, Function.update_of_ne (Table.ne_lowest hfd)]
    exact h.kept fd hopen
  · intro fd j
    rw [hshell]
    by_cases hfd : fd = l.shell.lowest
    · rw [hfd, Function.update_self]
      simp
    · rw [Function.update_of_ne hfd]
      exact h.noWriteEnd fd j
  · intro _
    show (launchStage count i l).shell.file l.shell.lowest = some (.readEnd i) ∧ 2 ≤ l.shell.lowest
    rw [hshell, Function.update_self]
    refine ⟨rfl, ?_⟩
    have h0 := Table.ne_lowest (h.std_open ht (show 0 < 3 by omega))
    have h1 := Table.ne_lowest (h.std_open ht (show 1 < 3 by omega))
    omega

theorem launchUpTo_between (ht : Standard t) (count : Nat) :
    ∀ n, Between t n (launchUpTo t count n) := by
  intro n
  induction n with
  | zero => exact Between.start ht
  | succ n ih => exact launchStage_between ih ht

theorem launchUpTo_stages (ht : Standard t) (count : Nat) :
    ∀ n, (launchUpTo t count n).stages.length = n ∧
      ∀ i stage, (launchUpTo t count n).stages[i]? = some stage → StageWired t count i stage := by
  intro n
  induction n with
  | zero =>
      refine ⟨rfl, ?_⟩
      intro i stage hstage
      simp [launchUpTo] at hstage
  | succ n ih =>
      obtain ⟨hlen, hwired⟩ := ih
      have hnew := childTable_wired count (launchUpTo_between ht count n) ht
      refine ⟨?_, ?_⟩
      · show ((launchUpTo t count n).stages ++ [_]).length = n + 1
        rw [List.length_append, hlen]
        rfl
      · intro i stage hstage
        have hstage' : ((launchUpTo t count n).stages ++ [childTable _ n count _ _ _])[i]?
            = some stage := hstage
        rcases Nat.lt_or_ge i n with hlt | hge
        · rw [List.getElem?_append_left (by omega)] at hstage'
          exact hwired i stage hstage'
        · have hi : i = n := by
            have hbound := (List.getElem?_eq_some_iff.mp hstage').1
            rw [List.length_append, hlen] at hbound
            exact Nat.le_antisymm (Nat.lt_succ_iff.mp hbound) hge
          subst hi
          rw [List.getElem?_append_right (by omega), hlen, Nat.sub_self] at hstage'
          have heq := Option.some.inj hstage'
          rw [← heq]
          exact hnew

/--
**Wiring.**  However many descriptors the shell has open, each stage of a pipeline reads
from the pipe before it and writes to the pipe after it, the first and the last using the
shell's own input and output; and the write end of a pipe between two stages is open
nowhere but as descriptor 1 of the stage that writes to it.
-/
theorem launch_wired (ht : Standard t) (n : Nat) : Wired t n (launch t n) := by
  obtain ⟨hlen, hstage⟩ := launchUpTo_stages ht n n
  refine ⟨hlen, hstage, ?_⟩
  rintro i ⟨fd, hfd⟩
  exact (launchUpTo_between ht n n).noWriteEnd fd i hfd

theorem terminal_standard : Standard terminal := by
  refine ⟨?_, ?_⟩
  · intro fd hfd
    show (if fd < 3 then some (File.outside 0) else none) ≠ none
    rw [if_pos hfd]
    simp
  · intro fd f hfile
    have hif : (if fd < 3 then some (File.outside 0) else none) = some f := hfile
    split at hif
    · exact ⟨0, (Option.some.inj hif).symm⟩
    · simp at hif

theorem launch_wired_terminal : Wired terminal 3 (launch terminal 3) :=
  launch_wired terminal_standard 3

end Shell
