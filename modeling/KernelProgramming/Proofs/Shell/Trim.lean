/-
What is left of a line when its trailing blanks have been removed.

The loop that removes them looks at one character or at two, and goes on when the last
one is a space or the last but one a tab.  Read from the end, it takes off spaces and
pairs of tabs, and when these are gone it takes off the last character of the command
as well if a tab stands in front of it.
-/
import KernelProgramming.Shell.Input

namespace Shell

/-! ### The loop, from the end of the line -/

theorem trimLoop_space (line : CString) :
    trimLoop (line.length + 1) (line ++ [' ']) = trimLoop line.length line := by
  cases hlen : line.length with
  | zero =>
      rw [List.length_eq_zero_iff.mp hlen]
      rfl
  | succ n =>
      have hlast : (line ++ [' '])[n + 1]? = some ' ' := by
        rw [List.getElem?_append_right (by omega), hlen, Nat.sub_self]
        rfl
      rw [trimLoop, if_pos hlast, ← hlen, List.take_left]

theorem trimLoop_tab (line : CString) {c : Char} (hc : c ≠ ' ') :
    trimLoop (line.length + 2) (line ++ ['\t', c]) = trimLoop line.length line := by
  have hlast : (line ++ ['\t', c])[line.length + 1]? = some c := by
    rw [List.getElem?_append_right (by omega), Nat.add_sub_cancel_left]
    rfl
  have hbefore : (line ++ ['\t', c])[line.length]? = some '\t' := by
    rw [List.getElem?_append_right (le_refl _), Nat.sub_self]
    rfl
  rw [trimLoop, hlast, if_neg (by simp [hc]), if_pos hbefore, List.take_left]

theorem trimLoop_stop (line : CString) {c d : Char} (hc : c ≠ ' ') (hd : d ≠ '\t') :
    trimLoop (line.length + 2) (line ++ [d, c]) = line ++ [d, c] := by
  have hlast : (line ++ [d, c])[line.length + 1]? = some c := by
    rw [List.getElem?_append_right (by omega), Nat.add_sub_cancel_left]
    rfl
  have hbefore : (line ++ [d, c])[line.length]? = some d := by
    rw [List.getElem?_append_right (le_refl _), Nat.sub_self]
    rfl
  rw [trimLoop, hlast, if_neg (by simp [hc]), hbefore, if_neg (by simp [hd])]

/-- `trimLoop` on the reversed line. -/
def trimRev : CString → CString
  | ' ' :: rest => trimRev rest
  | _ :: '\t' :: rest => trimRev rest
  | rest => rest

theorem trimLoop_reverse (line : CString) :
    trimLoop line.length line.reverse = (trimRev line).reverse := by
  fun_induction trimRev line with
  | case1 rest ih =>
      have hspace := trimLoop_space rest.reverse
      rw [List.length_reverse] at hspace
      rw [List.length_cons, List.reverse_cons, hspace, ih]
  | case2 c rest hc ih =>
      have htab := trimLoop_tab rest.reverse (c := c) (by
        rintro rfl
        exact hc rfl)
      rw [List.length_reverse] at htab
      rw [List.length_cons, List.length_cons, List.reverse_cons, List.reverse_cons,
        List.append_assoc]
      exact htab.trans ih
  | case3 rest hspace htab =>
      rcases rest with _ | ⟨c, _ | ⟨d, rest⟩⟩
      · rfl
      · have hc : c ≠ ' ' := by
          rintro rfl
          exact hspace [] rfl
        show (if some c = some ' ' then _ else [c]) = [c]
        rw [if_neg (by simp [hc])]
      · have hc : c ≠ ' ' := by
          rintro rfl
          exact hspace _ rfl
        have hd : d ≠ '\t' := by
          rintro rfl
          exact htab _ _ rfl
        have hstop := trimLoop_stop rest.reverse hc hd
        rw [List.length_reverse] at hstop
        rw [List.length_cons, List.length_cons, List.reverse_cons, List.reverse_cons,
          List.append_assoc]
        exact hstop

/-- What `get_cmd_line` makes of a line that is not blank. -/
def trim (line : CString) : CString := trimLoop line.length line

theorem trim_eq (line : CString) : trim line = (trimRev line.reverse).reverse := by
  have h := trimLoop_reverse line.reverse
  rw [List.length_reverse, List.reverse_reverse] at h
  exact h

/-! ### What is taken off -/

/-- Spaces and pairs of tabs. -/
def tabPairs : CString → Bool
  | [] => true
  | ' ' :: rest => tabPairs rest
  | '\t' :: '\t' :: rest => tabPairs rest
  | _ => false

/-- Read from the end: spaces and pairs of tabs, a character that is not a blank, and a tab. -/
def TabBeforeLast (line : CString) : Prop :=
  ∃ blanks c rest, line = blanks ++ c :: '\t' :: rest ∧ tabPairs blanks = true ∧
    isBlank c = false

/-- The last character that is not a blank goes with the blanks. -/
def LosesLast (line : CString) : Prop := TabBeforeLast line.reverse

/-- The line without its trailing blanks. -/
def core (line : CString) : CString := line.rdropWhile isBlank

theorem tabPairs_blank {blanks : CString} (h : tabPairs blanks = true) :
    ∀ c ∈ blanks, isBlank c = true := by
  fun_induction tabPairs blanks with
  | case1 => simp
  | case2 rest ih =>
      intro c hc
      rcases List.mem_cons.mp hc with rfl | hrest
      · rfl
      · exact ih h c hrest
  | case3 rest ih =>
      intro c hc
      simp only [List.mem_cons] at hc
      rcases hc with rfl | rfl | hrest
      · rfl
      · rfl
      · exact ih h c hrest
  | case4 => simp at h

/-- The loop takes off spaces and pairs of tabs. -/
theorem trimRev_tabPairs {blanks : CString} (h : tabPairs blanks = true) (rest : CString) :
    trimRev (blanks ++ rest) = trimRev rest := by
  fun_induction tabPairs blanks with
  | case1 => rfl
  | case2 blanks ih =>
      rw [List.cons_append, trimRev]
      exact ih h
  | case3 blanks ih =>
      rw [List.cons_append, List.cons_append, trimRev]
      · exact ih h
      · simp
  | case4 => simp at h

/-- And it takes off nothing else, unless it loses a character. -/
theorem trimRev_split (line : CString) (h : ¬TabBeforeLast line) :
    ∃ blanks, tabPairs blanks = true ∧ line = blanks ++ trimRev line := by
  fun_induction trimRev line with
  | case1 rest ih =>
      have hrest : ¬TabBeforeLast rest := by
        rintro ⟨blanks, c, later, rfl, hpairs, hc⟩
        exact h ⟨' ' :: blanks, c, later, rfl, hpairs, hc⟩
      obtain ⟨blanks, hpairs, hsplit⟩ := ih hrest
      exact ⟨' ' :: blanks, hpairs, congrArg (' ' :: ·) hsplit⟩
  | case2 c rest hc ih =>
      cases hblank : isBlank c with
      | false => exact absurd ⟨[], c, rest, rfl, rfl, hblank⟩ h
      | true =>
          obtain rfl : c = '\t' := by
            simp only [isBlank, Bool.or_eq_true, decide_eq_true_eq] at hblank
            exact hblank.resolve_left fun heq => hc heq
          have hrest : ¬TabBeforeLast rest := by
            rintro ⟨blanks, c, later, rfl, hpairs, hc⟩
            exact h ⟨'\t' :: '\t' :: blanks, c, later, rfl, hpairs, hc⟩
          obtain ⟨blanks, hpairs, hsplit⟩ := ih hrest
          exact ⟨'\t' :: '\t' :: blanks, hpairs, congrArg ('\t' :: '\t' :: ·) hsplit⟩
  | case3 rest hspace htab => exact ⟨[], rfl, rfl⟩

theorem trimRev_suffix (line : CString) : trimRev line <:+ line := by
  fun_induction trimRev line with
  | case1 rest ih => exact ih.trans (List.suffix_cons _ _)
  | case2 c rest hc ih => exact ih.trans ((List.suffix_cons _ _).trans (List.suffix_cons _ _))
  | case3 rest hspace htab => exact List.suffix_refl _

theorem dropWhile_blanks {blanks : CString} (h : ∀ c ∈ blanks, isBlank c = true)
    (rest : CString) : (blanks ++ rest).dropWhile isBlank = rest.dropWhile isBlank := by
  induction blanks with
  | nil => rfl
  | cons c blanks ih =>
      rw [List.cons_append, List.dropWhile_cons_of_pos (h c (by simp))]
      exact ih fun d hd => h d (by simp [hd])

/-- **What the loop keeps of a line.** -/
theorem trimRev_core_iff (line : CString) :
    (trimRev line).dropWhile isBlank = line.dropWhile isBlank ↔ ¬TabBeforeLast line := by
  constructor
  · rintro hsame ⟨blanks, c, rest, rfl, hpairs, hc⟩
    have hne : c ≠ ' ' := by
      rintro rfl
      simp [isBlank] at hc
    have htrim : trimRev (c :: '\t' :: rest) = trimRev rest := by
      rw [trimRev]
      intro heq
      exact hne heq
    rw [trimRev_tabPairs hpairs, htrim, dropWhile_blanks (tabPairs_blank hpairs),
      List.dropWhile_cons_of_neg (by simp [hc])] at hsame
    have hle : ((trimRev rest).dropWhile isBlank).length ≤ rest.length :=
      ((List.dropWhile_suffix isBlank).trans (trimRev_suffix rest)).length_le
    rw [hsame, List.length_cons, List.length_cons] at hle
    omega
  · intro h
    obtain ⟨blanks, hpairs, hsplit⟩ := trimRev_split line h
    have hdrop := dropWhile_blanks (tabPairs_blank hpairs) (trimRev line)
    rw [← hsplit] at hdrop
    exact hdrop.symm

theorem core_reverse (line : CString) : core line.reverse = (line.dropWhile isBlank).reverse :=
  List.rdropWhile_reverse ..

theorem core_trim_iff (line : CString) : core (trim line) = core line ↔ ¬LosesLast line := by
  have hcore := core_reverse line.reverse
  rw [List.reverse_reverse] at hcore
  rw [trim_eq, core_reverse, hcore, List.reverse_inj, trimRev_core_iff]
  rfl

theorem trim_isPrefix (line : CString) : trim line <+: line := by
  have hsuffix := trimRev_suffix line.reverse
  rw [trim_eq, ← List.reverse_suffix, List.reverse_reverse]
  exact hsuffix

/-! ### What becomes of the shell -/

/-- The line makes the shell exit: `exit` and what the loop takes off, or `exit&` or `exit &&`
with any blanks behind it. -/
def ExitLine (line : CString) : Prop :=
  core line = "exit&".toList ∨ core line = "exit &&".toList ∨
    ∃ blanks, tabPairs blanks = true ∧ line = "exit".toList ++ blanks.reverse

theorem trim_eq_exit_iff {line : CString} (hsafe : ¬LosesLast line) :
    trim line = "exit".toList ↔
      ∃ blanks, tabPairs blanks = true ∧ line = "exit".toList ++ blanks.reverse := by
  rw [trim_eq]
  constructor
  · intro htrim
    obtain ⟨blanks, hpairs, hsplit⟩ := trimRev_split line.reverse hsafe
    refine ⟨blanks, hpairs, ?_⟩
    rw [← htrim, ← List.reverse_append, ← hsplit, List.reverse_reverse]
  · rintro ⟨blanks, hpairs, rfl⟩
    rw [List.reverse_append, List.reverse_reverse, trimRev_tabPairs hpairs]
    rfl

theorem cutAsync_of_and {cmdline cmd : CString} (h : core cmdline = cmd ++ ['&']) :
    cutAsync cmdline = (cmd, true) := by
  unfold cutAsync
  unfold core at h
  simp only [h]
  rw [if_pos (by simp), List.dropLast_concat]

theorem cutAsync_of_not {cmdline : CString} (h : (core cmdline).getLast? ≠ some '&') :
    cutAsync cmdline = (cmdline, false) := by
  unfold cutAsync
  unfold core at h
  simp only
  rw [if_neg h]

/-- What is compared with the built-ins: the line without its `&`, or all that was kept. -/
theorem cutAsync_trim {line : CString} (hsafe : ¬LosesLast line) :
    (∃ cmd, core line = cmd ++ ['&'] ∧ (cutAsync (trim line)).1 = cmd) ∨
      ((core line).getLast? ≠ some '&' ∧ (cutAsync (trim line)).1 = trim line) := by
  have hcore := (core_trim_iff line).mpr hsafe
  by_cases hlast : (core line).getLast? = some '&'
  · obtain ⟨cmd, hcmd⟩ := List.getLast?_eq_some_iff.mp hlast
    have hcut := cutAsync_of_and (hcore.trans hcmd)
    exact Or.inl ⟨cmd, hcmd, congrArg Prod.fst hcut⟩
  · have hcut := cutAsync_of_not (by rw [hcore]; exact hlast)
    exact Or.inr ⟨hlast, congrArg Prod.fst hcut⟩

theorem core_exit {blanks : CString} (h : tabPairs blanks = true) :
    core ("exit".toList ++ blanks.reverse) = "exit".toList := by
  have hrev := core_reverse (blanks ++ "exit".toList.reverse)
  rw [List.reverse_append, List.reverse_reverse, dropWhile_blanks (tabPairs_blank h)] at hrev
  exact hrev

end Shell
