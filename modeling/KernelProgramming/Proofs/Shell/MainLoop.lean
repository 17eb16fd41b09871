/-
Does the shell execute its input line by line, and stop?

If the shell reads its input from end to end, the loop makes the calls of `texts` up to
the first one that does not come back (`mainLoop_eq`).  So the calls are the lines exactly
when nothing of any line is lost, and the loop ends only where a line makes the shell
exit (`lineByLine_iff`).
-/
import KernelProgramming.Proofs.Shell.Plan

namespace Shell

open Buffered

/-- The shell calls `exec_job` for each line with a character other than blanks, in their order
and with their text, and the loop is left. -/
def LineByLine (env : Environment) (stdin : CString) : Prop :=
  ∃ fuel, (main env stdin fuel).ending = .exited ∧
    List.Forall₂ SameText (main env stdin fuel).calls ((commandLines stdin).map (·.1))

/-- Each read of the shell starts where the one before it has ended. -/
def ReadsOn (env : Environment) (stdin : CString) : Prop :=
  ∀ fuel, (main env stdin fuel).stdin.astray = false

/-! ### Several calls -/

/-- The jobs after a call that comes back. -/
def afterLine (s : Sh) (cmdline : CString) (a : Answers) : Sh :=
  match execLine s cmdline a with
  | .returned s' => s'
  | .exited => s
  | .crashed => s

/-- `exec_job` comes back from each of the texts, called with one after the other, the first time
for the `k`-th time. -/
def AllComeBack (answers : Nat → Answers) : Nat → Sh → List CString → Prop
  | _, _, [] => True
  | k, s, cmdline :: rest =>
      ComesBack s cmdline (answers k) ∧
        AllComeBack answers (k + 1) (afterLine s cmdline (answers k)) rest

/-- The jobs after all these calls. -/
def afterLines (answers : Nat → Answers) : Nat → Sh → List CString → Sh
  | _, s, [] => s
  | k, s, cmdline :: rest =>
      afterLines answers (k + 1) (afterLine s cmdline (answers k)) rest

/-- The calls up to the first one that does not come back. -/
def upToEnd (answers : Nat → Answers) : Nat → Sh → List CString → List CString × Ending
  | _, _, [] => ([], .prompting)
  | k, s, cmdline :: rest =>
      match execLine s cmdline (answers k) with
      | .returned s' =>
          (cmdline :: (upToEnd answers (k + 1) s' rest).1, (upToEnd answers (k + 1) s' rest).2)
      | .exited => ([cmdline], .exited)
      | .crashed => ([cmdline], .crashed)

variable {answers : Nat → Answers}

theorem upToEnd_exited {last : CString} {later : List CString} : ∀ {init : List CString} {k : Nat}
    {s : Sh}, AllComeBack answers k s init →
    execLine (afterLines answers k s init) last (answers (k + init.length)) = .exited →
    upToEnd answers k s (init ++ last :: later) = (init ++ [last], .exited) := by
  intro init
  induction init with
  | nil =>
      intro k s _ hlast
      rw [List.nil_append, upToEnd]
      have hlast' : execLine s last (answers k) = .exited := hlast
      rw [hlast']
      rfl
  | cons cmdline init ih =>
      intro k s hinit hlast
      obtain ⟨u, hu⟩ := execLine_returned_iff.mpr hinit.1
      have hafter : afterLine s cmdline (answers k) = u := by
        unfold afterLine
        rw [hu]
      have hlast' := ih hinit.2 (by rw [Nat.add_assoc, Nat.add_comm 1]; exact hlast)
      rw [hafter] at hlast'
      rw [List.cons_append, upToEnd, hu]
      simp only [hlast']
      rfl

theorem exited_split : ∀ {cmdlines calls : List CString} {k : Nat} {s : Sh},
    upToEnd answers k s cmdlines = (calls, .exited) →
    ∃ init last later, cmdlines = init ++ last :: later ∧ calls = init ++ [last] ∧
      AllComeBack answers k s init ∧
      execLine (afterLines answers k s init) last (answers (k + init.length)) = .exited := by
  intro cmdlines
  induction cmdlines with
  | nil =>
      intro calls k s h
      simp [upToEnd] at h
  | cons cmdline rest ih =>
      intro calls k s h
      rw [upToEnd] at h
      cases hline : execLine s cmdline (answers k) with
      | crashed => simp [hline] at h
      | exited =>
          simp only [hline, Prod.mk.injEq, and_true] at h
          exact ⟨[], cmdline, rest, rfl, h.symm, trivial, hline⟩
      | returned u =>
          simp only [hline, Prod.mk.injEq] at h
          obtain ⟨init, last, later, hsplit, hcalls, hinit, hlast⟩ := ih (Prod.ext rfl h.2)
          have hafter : afterLine s cmdline (answers k) = u := by
            unfold afterLine
            rw [hline]
          refine ⟨cmdline :: init, last, later, ?_, ?_, ?_, ?_⟩
          · rw [hsplit]
            rfl
          · rw [← h.1]
            exact congrArg (cmdline :: ·) hcalls
          · exact ⟨execLine_returned_iff.mp ⟨u, hline⟩, by rw [hafter]; exact hinit⟩
          · rw [List.length_cons, Nat.add_comm init.length 1, ← Nat.add_assoc]
            show execLine (afterLines answers (k + 1) (afterLine s cmdline (answers k)) init) _ _ = _
            rw [hafter]
            exact hlast

/-! ### The stream -/

section stream

variable {sys : Supply} {stdin : Reader Char}

theorem fgetsFrom_astray : ∀ (n : Nat) {stdin : Reader Char},
    (fgetsFrom sys n stdin).2.astray = false → stdin.astray = false := by
  intro n
  induction n with
  | zero =>
      intro stdin h
      exact h
  | succ n ih =>
      intro stdin h
      suffices hnext : (stdin.next sys).2.astray = false from Reader.next_astray hnext
      unfold fgetsFrom at h
      generalize stdin.next sys = r at h ⊢
      obtain ⟨c, stdin'⟩ := r
      cases c with
      | none => exact h
      | some c =>
          simp only at h
          split at h
          · exact h
          · exact ih h

theorem fgetsFrom_own (hsys : ∀ n p, sys.start n p = p) : ∀ (n : Nat) {stdin : Reader Char},
    stdin.astray = false → (fgetsFrom sys n stdin).2.astray = false := by
  intro n
  induction n with
  | zero =>
      intro stdin h
      exact h
  | succ n ih =>
      intro stdin h
      have hnext := Reader.next_own hsys h
      unfold fgetsFrom
      generalize stdin.next sys = r at hnext ⊢
      obtain ⟨c, stdin'⟩ := r
      cases c with
      | none => exact hnext
      | some c =>
          simp only
          split
          · exact hnext
          · exact ih hnext

/-- `fgets` gets the next piece of what is to come. -/
theorem fgetsFrom_eq : ∀ (n : Nat) {stdin : Reader Char}, stdin.OK →
    (fgetsFrom sys n stdin).2.astray = false →
    (fgetsFrom sys n stdin).1 = (fgets n stdin.pending).1 ∧
      (fgetsFrom sys n stdin).2.pending = (fgets n stdin.pending).2 ∧
      (fgetsFrom sys n stdin).2.OK := by
  intro n
  induction n with
  | zero =>
      intro stdin hok _
      exact ⟨rfl, rfl, hok⟩
  | succ n ih =>
      intro stdin hok hown
      have hnext : (stdin.next sys).2.astray = false := by
        unfold fgetsFrom at hown
        generalize stdin.next sys = r at hown ⊢
        obtain ⟨c, stdin'⟩ := r
        cases c with
        | none => exact hown
        | some c =>
            simp only at hown
            split at hown
            · exact hown
            · exact fgetsFrom_astray n hown
      obtain ⟨hhead, htail, hok'⟩ := Reader.next_eq hok hnext
      unfold fgetsFrom at hown ⊢
      generalize stdin.next sys = r at hhead htail hok' hown ⊢
      obtain ⟨c, stdin'⟩ := r
      simp only at hhead htail hok' hown ⊢
      cases hpending : stdin.pending with
      | nil =>
          rw [hpending] at hhead htail
          rw [hhead]
          exact ⟨rfl, htail, hok'⟩
      | cons d rest =>
          rw [hpending] at hhead htail
          obtain rfl : c = some d := hhead
          have hrest : stdin'.pending = rest := htail
          simp only at hown ⊢
          rw [fgets]
          split
          · exact ⟨rfl, hrest, hok'⟩
          · rename_i hd
            rw [if_neg hd] at hown
            obtain ⟨hpiece, hlater, hok''⟩ := ih hok' hown
            rw [hrest] at hpiece hlater
            exact ⟨by rw [hpiece], hlater, hok''⟩

theorem getCmdLineFrom_eq (hok : stdin.OK) (hown : (getCmdLineFrom sys stdin).2.astray = false) :
    (getCmdLineFrom sys stdin).1 = (getCmdLine stdin.pending).1 ∧
      (getCmdLineFrom sys stdin).2.pending = (getCmdLine stdin.pending).2 ∧
      (getCmdLineFrom sys stdin).2.OK := by
  obtain ⟨hpiece, hlater, hok'⟩ := fgetsFrom_eq (maxCmdlineLen - 1) hok hown
  exact ⟨congrArg cutPiece hpiece, hlater, hok'⟩

end stream

variable {env : Environment}

theorem mainLoop_astray : ∀ (fuel : Nat) {stdin : Reader Char} {s : Sh} {k : Nat},
    (mainLoop env fuel stdin s k).stdin.astray = false → stdin.astray = false := by
  intro fuel
  induction fuel with
  | zero =>
      intro stdin s k h
      exact h
  | succ fuel ih =>
      intro stdin s k h
      suffices hread : (getCmdLineFrom env.reads stdin).2.astray = false from
        fgetsFrom_astray (maxCmdlineLen - 1) hread
      unfold mainLoop at h
      generalize getCmdLineFrom env.reads stdin = r at h ⊢
      obtain ⟨cmdline, stdin'⟩ := r
      cases cmdline with
      | none => exact ih h
      | some cmdline =>
          simp only at h
          split at h
          · exact ih h
          · exact h
          · exact h

/-- If nobody else reads, each read starts where the one before it has ended. -/
theorem readsOn_of_own (hsys : ∀ n p, env.reads.start n p = p) (stdin : CString) :
    ReadsOn env stdin := by
  have hloop : ∀ (fuel : Nat) (stdin : Reader Char) (s : Sh) (k : Nat), stdin.astray = false →
      (mainLoop env fuel stdin s k).stdin.astray = false := by
    intro fuel
    induction fuel with
    | zero =>
        intro stdin s k h
        exact h
    | succ fuel ih =>
        intro stdin s k h
        have hread : (getCmdLineFrom env.reads stdin).2.astray = false :=
          fgetsFrom_own hsys (maxCmdlineLen - 1) h
        unfold mainLoop
        generalize getCmdLineFrom env.reads stdin = r at hread ⊢
        obtain ⟨cmdline, stdin'⟩ := r
        cases cmdline with
        | none => exact ih _ _ _ hread
        | some cmdline =>
            simp only
            split
            · exact ih _ _ _ hread
            · exact hread
            · exact hread
  exact fun fuel => hloop fuel (opened stdin) start 0 rfl

/-- **The loop makes the calls of `texts`** up to the first one that does not come back. -/
theorem mainLoop_eq : ∀ (fuel : Nat) {stdin : Reader Char} {s : Sh} {k : Nat}, stdin.OK →
    (mainLoop env fuel stdin s k).stdin.astray = false →
    ((mainLoop env fuel stdin s k).calls, (mainLoop env fuel stdin s k).ending)
      = upToEnd env.answers k s (texts fuel stdin.pending) := by
  intro fuel
  induction fuel with
  | zero =>
      intro stdin s k _ _
      rfl
  | succ fuel ih =>
      intro stdin s k hok hown
      have hread : (getCmdLineFrom env.reads stdin).2.astray = false := by
        unfold mainLoop at hown
        generalize getCmdLineFrom env.reads stdin = r at hown ⊢
        obtain ⟨cmdline, stdin'⟩ := r
        cases cmdline with
        | none => exact mainLoop_astray fuel hown
        | some cmdline =>
            simp only at hown
            split at hown
            · exact mainLoop_astray fuel hown
            · exact hown
            · exact hown
      obtain ⟨htext, hlater, hok'⟩ := getCmdLineFrom_eq hok hread
      rw [texts, ← htext, ← hlater]
      unfold mainLoop at hown ⊢
      generalize getCmdLineFrom env.reads stdin = r at hown hok' ⊢
      obtain ⟨cmdline, stdin'⟩ := r
      cases cmdline with
      | none => exact ih hok' hown
      | some cmdline =>
          simp only [Option.toList_some, List.singleton_append] at hown ⊢
          rw [upToEnd]
          cases hline : execLine s cmdline (env.answers k) with
          | returned u =>
              simp only [hline] at hown ⊢
              rw [← ih hok' hown]
          | exited => rfl
          | crashed => rfl

/-! ### Lines and calls -/

/-- Nothing is lost of any line, `exec_job` comes back from all of them but the last, and that one
makes the shell exit. -/
structure InputFits (env : Environment) (stdin : CString) : Prop where
  fits : ∀ l ∈ commandLines stdin, Fits l
  exits : ∃ init last, commandLines stdin = init ++ [last] ∧
    AllComeBack env.answers 0 start (init.map textOf) ∧ ExitLine (room last) ∧
    reap (afterLines env.answers 0 start (init.map textOf)) (env.answers init.length).reaped ≠ none

/-- The calls of the loop are those of a reader who has the input to itself. -/
theorem main_eq {stdin : CString} (hown : ReadsOn env stdin) (fuel : Nat) :
    ((main env stdin fuel).calls, (main env stdin fuel).ending)
      = upToEnd env.answers 0 start (texts fuel stdin) :=
  mainLoop_eq fuel (Reader.opened_ok stdin) (hown fuel)

/-- What the calls show of the lines. -/
theorem calls_lines {stdin : CString} {fuel : Nat} {calls : List CString}
    (hmain : upToEnd env.answers 0 start (texts fuel stdin) = (calls, .exited))
    (hcalls : List.Forall₂ SameText calls ((commandLines stdin).map (·.1))) :
    (∀ l ∈ commandLines stdin, Fits l) ∧ calls = (commandLines stdin).map textOf := by
  obtain ⟨init, last, later, htexts, hinit, -, -⟩ := exited_split hmain
  -- Every line is the text of a call, so it is short and has no zero.
  have hshort : ∀ l ∈ commandLines stdin, '\x00' ∉ l.1 ∧ (core l.1).length ≤ 1022 := by
    intro l hl
    obtain ⟨call, hcall, hsame⟩ := forall₂_right hcalls l.1 (List.mem_map_of_mem hl)
    have hmem : call ∈ texts fuel stdin := by
      rw [hinit, List.mem_append, List.mem_singleton] at hcall
      rw [htexts, List.mem_append, List.mem_cons]
      exact hcall.imp_right Or.inl
    have htext := texts_mem hmem
    exact short_of_sameText hsame htext.1 htext.2
  -- So the calls are what the lines send, and there are as many of them as lines.
  obtain ⟨more, hmore⟩ := texts_add fuel stdin.length stdin
  rw [texts_lines (Nat.le_add_left _ _) (noNul_of_lines fun l hl => (hshort l hl).1)
    fun l hl => (hshort l hl).2, filterMap_commandLines, htexts] at hmore
  have hall : (commandLines stdin).filterMap (fun l => sent (room l)) = calls := by
    have hle := List.length_filterMap_le (fun l => sent (room l)) (commandLines stdin)
    have hlen := hcalls.length_eq
    rw [List.length_map, hinit, List.length_append, List.length_singleton] at hlen
    rw [hmore, List.length_append, List.length_append, List.length_cons] at hle
    have hlater : later = [] := List.length_eq_zero_iff.mp (by omega)
    have hnone : more = [] := List.length_eq_zero_iff.mp (by omega)
    rw [hmore, hinit, hlater, hnone, List.append_nil]
  have hsent : ∀ l ∈ commandLines stdin,
      sent (room l) = some (textOf l) ∧ SameText (textOf l) l.1 := by
    rw [← hall] at hcalls
    intro l hl
    obtain ⟨call, hcall, hsame⟩ := forall₂_filterMap hcalls l hl
    obtain ⟨-, rfl⟩ := sent_eq_some_iff.mp hcall
    exact ⟨hcall, hsame⟩
  constructor
  · intro l hl
    obtain ⟨hwhole, hkept⟩ := (sameText_trim_iff l).mp (hsent l hl).2
    exact ⟨(hshort l hl).1, hwhole, hkept⟩
  · rw [← hall]
    exact filterMap_sent fun l hl => (hsent l hl).1

/--
**Line by line.**  Provided that each read of the shell starts where the one before it has
ended, the shell calls `exec_job` once for each line with a character other than blanks, in
their order and each time with the text of the line, and leaves its loop, exactly when nothing
of these lines is lost, `exec_job` comes back from all of them but the last, and the last one
makes the shell exit.
-/
theorem lineByLine_iff {stdin : CString} (hown : ReadsOn env stdin) :
    LineByLine env stdin ↔ InputFits env stdin := by
  constructor
  · rintro ⟨fuel, hending, hcalls⟩
    have hmain := main_eq hown fuel
    rw [hending] at hmain
    obtain ⟨hfits, hall⟩ := calls_lines hmain.symm hcalls
    refine ⟨hfits, ?_⟩
    obtain ⟨init, last, -, -, hsplit, hinit, hlast⟩ := exited_split hmain.symm
    rw [hall] at hsplit
    obtain ⟨first, rest, hlines, rfl, hrest⟩ := List.map_eq_append_iff.mp hsplit
    obtain ⟨exit, rfl, rfl⟩ := List.map_eq_singleton_iff.mp hrest
    rw [List.length_map, Nat.zero_add] at hlast
    obtain ⟨hplan, hreap⟩ := execLine_exited_iff.mp hlast
    have hfit := hfits exit (by rw [hlines]; simp)
    exact ⟨first, exit, hlines, hinit, (plan_trim_exit_iff hfit.kept).mp hplan, hreap⟩
  · rintro ⟨hfits, init, last, hlines, hinit, hexit, hreap⟩
    have hfit := hfits last (by rw [hlines]; simp)
    have hlast : execLine (afterLines env.answers 0 start (init.map textOf)) (textOf last)
        (env.answers (0 + (init.map textOf).length)) = .exited := by
      rw [Nat.zero_add, List.length_map]
      exact execLine_exited_iff.mpr ⟨(plan_trim_exit_iff hfit.kept).mpr hexit, hreap⟩
    have hmain := main_eq hown stdin.length
    rw [texts_of_fits hfits, hlines, List.map_append, List.map_singleton] at hmain
    have hcalled : upToEnd env.answers 0 start (init.map textOf ++ [textOf last])
        = (init.map textOf ++ [textOf last], .exited) := upToEnd_exited hinit hlast
    rw [hcalled] at hmain
    refine ⟨stdin.length, congrArg Prod.snd hmain, ?_⟩
    have hcalls : (main env stdin stdin.length).calls = (commandLines stdin).map textOf := by
      rw [hlines, List.map_append, List.map_singleton]
      exact congrArg Prod.fst hmain
    rw [hcalls, List.forall₂_map_left_iff, List.forall₂_map_right_iff, List.forall₂_same]
    intro l hl
    exact (sameText_trim_iff l).mpr ⟨(hfits l hl).whole, (hfits l hl).kept⟩

/-- Commands that succeed and leave the input alone. -/
def quiet : Environment where
  reads := { start := fun _ place => place, more := fun _ => 4095 }
  answers _ :=
    { reaped := []
      reapedLater := []
      fork := fun i => 10 + i
      killOk := true
      report := .all .exited
      garbage := 0
      status := .other }

/-- The second read starts at the third character: the child for `no` has found no such command,
and its `exit` has put back what it had inherited and not read. -/
def rewound : Environment :=
  { quiet with
    reads := { start := fun n place => if n = 1 then 3 else place, more := fun _ => 5 } }

example : (main rewound "no\nls\nexit\n".toList 5).calls
    = ["no".toList, "ls".toList, "ls".toList, "exit".toList] := by decide

/-- One command, and then `exit`. -/
theorem lineByLine_lsExit : LineByLine quiet "ls\nexit\n".toList := by
  refine (lineByLine_iff (readsOn_of_own (fun _ _ => rfl) _)).mpr ⟨?_, ?_⟩
  · intro l hl
    have hlines : commandLines "ls\nexit\n".toList
        = [("ls".toList, true), ("exit".toList, true)] := by decide
    rw [hlines] at hl
    simp only [List.mem_cons, List.not_mem_nil, or_false] at hl
    rcases hl with rfl | rfl
    · exact ⟨by decide, by decide, (core_trim_iff _).mp (by decide)⟩
    · exact ⟨by decide, by decide, (core_trim_iff _).mp (by decide)⟩
  · refine ⟨[("ls".toList, true)], ("exit".toList, true), by decide, ⟨?_, trivial⟩, ?_, ?_⟩
    · exact execLine_returned_iff.mp ⟨_, rfl⟩
    · exact Or.inr (Or.inr ⟨[], rfl, rfl⟩)
    · exact fun hnone => by cases hnone

/-- One command and the end of the input: the loop never ends. -/
theorem lineByLine_fails_at_end : ¬LineByLine quiet "ls\n".toList := by
  rintro ⟨fuel, hending, -⟩
  have hown : ReadsOn quiet "ls\n".toList := readsOn_of_own (fun _ _ => rfl) _
  have hread : getCmdLine "ls\n".toList = (some "ls".toList, []) := by decide
  have hmain := congrArg Prod.snd (main_eq hown fuel)
  rw [hending] at hmain
  cases fuel with
  | zero => simp [texts, upToEnd] at hmain
  | succ fuel =>
      rw [texts, hread, texts_nil] at hmain
      have hend : (upToEnd quiet.answers 0 start ["ls".toList]).2 = .exited := hmain.symm
      revert hend
      decide

end Shell
