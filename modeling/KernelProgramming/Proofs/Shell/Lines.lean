/-
The lines of the input, and what `exec_job` is called with.

The input is cut into lines in the plain way (`splitLines`) and into pieces in the way
of `fgets`; a long line is several pieces.  From every piece one character goes, and
blanks at the end of what is left.  `texts` is what `exec_job` would be called with if
it always came back.

A line cannot be given to `exec_job` as a whole if it holds a zero or has something
behind its first 1022 characters.  If no line is like that, every line is one call, or
none when only its last character counts and no newline follows.
-/
import KernelProgramming.Proofs.Shell.Trim
import Mathlib.Data.List.Forall2

namespace Shell

/-! ### Lines -/

/-- The lines of an input, and whether a newline follows. -/
def splitLines : CString → List (CString × Bool)
  | [] => []
  | c :: rest =>
      if c = '\n' then ([], true) :: splitLines rest
      else
        match splitLines rest with
        | [] => [([c], false)]
        | (line, ended) :: later => (c :: line, ended) :: later

/-- The lines with a character other than blanks. -/
def commandLines (stdin : CString) : List (CString × Bool) :=
  (splitLines stdin).filter fun l => !l.1.all isBlank

/-- The string is the line, up to trailing blanks. -/
def SameText (cmdline line : CString) : Prop := core cmdline = core line

/-- The part of a line that ends up in `cmdline`: the character in front of the end is cut off if
it is no newline, and there is room for 1022. -/
def room (l : CString × Bool) : CString := (if l.2 then l.1 else l.1.dropLast).take 1022

/-- What `exec_job` is called with for a line that is one call. -/
def textOf (l : CString × Bool) : CString := trim (room l)

/-- Nothing of the line is lost. -/
structure Fits (l : CString × Bool) : Prop where
  noNul : '\x00' ∉ l.1
  whole : core (room l) = core l.1
  kept : ¬LosesLast (room l)

/-! ### The calls -/

/-- What `exec_job` is called with in so many iterations, if it always comes back. -/
def texts : Nat → CString → List CString
  | 0, _ => []
  | fuel + 1, stdin => (getCmdLine stdin).1.toList ++ texts fuel (getCmdLine stdin).2

/-- More iterations make more calls. -/
theorem texts_add (fuel more : Nat) (stdin : CString) :
    ∃ later, texts (fuel + more) stdin = texts fuel stdin ++ later := by
  induction fuel generalizing stdin with
  | zero => exact ⟨_, rfl⟩
  | succ fuel ih =>
      obtain ⟨later, hlater⟩ := ih (getCmdLine stdin).2
      refine ⟨later, ?_⟩
      rw [Nat.add_right_comm, texts, texts, hlater, List.append_assoc]

/-! ### A piece of the input -/

theorem fgets_length (n : Nat) (stdin : CString) : (fgets n stdin).1.length ≤ n := by
  fun_induction fgets n stdin with
  | case1 => simp
  | case2 => simp
  | case3 => simp
  | case4 n c stdin hc ih =>
      rw [List.length_cons]
      omega

theorem fgets_append (n : Nat) (stdin : CString) :
    (fgets n stdin).1 ++ (fgets n stdin).2 = stdin := by
  fun_induction fgets n stdin with
  | case1 => rfl
  | case2 => rfl
  | case3 => simp
  | case4 n c stdin hc ih => rw [List.cons_append, ih]

theorem splitLines_newline (rest : CString) :
    splitLines ('\n' :: rest) = ([], true) :: splitLines rest := by
  rw [splitLines, if_pos rfl]

theorem splitLines_eq_nil {stdin : CString} (h : splitLines stdin = []) : stdin = [] := by
  cases stdin with
  | nil => rfl
  | cons c rest =>
      rw [splitLines] at h
      split at h
      · simp at h
      · split at h <;> simp at h

/-- The first line of an input starts with its first character. -/
theorem splitLines_cons {c : Char} (hc : c ≠ '\n') {rest line : CString} {ended : Bool}
    {later : List (CString × Bool)} (h : splitLines (c :: rest) = (line, ended) :: later) :
    (rest = [] ∧ line = [c] ∧ ended = false ∧ later = []) ∨
      ∃ line', line = c :: line' ∧ splitLines rest = (line', ended) :: later := by
  rw [splitLines, if_neg hc] at h
  cases hrest : splitLines rest with
  | nil =>
      rw [hrest] at h
      simp only [List.cons.injEq, Prod.mk.injEq] at h
      exact Or.inl ⟨splitLines_eq_nil hrest, h.1.1.symm, h.1.2.symm, h.2.symm⟩
  | cons first more =>
      obtain ⟨line', ended'⟩ := first
      rw [hrest] at h
      simp only [List.cons.injEq, Prod.mk.injEq] at h
      obtain ⟨⟨rfl, rfl⟩, rfl⟩ := h
      exact Or.inr ⟨line', rfl, rfl⟩

/-- A piece that the line fits in. -/
theorem fgets_line {later : List (CString × Bool)} {ended : Bool} : ∀ {stdin line : CString}
    {n : Nat}, splitLines stdin = (line, ended) :: later → line.length < n →
    (fgets n stdin).1 = line ++ (if ended then ['\n'] else []) ∧
      splitLines (fgets n stdin).2 = later := by
  intro stdin
  induction stdin with
  | nil =>
      intro line n h
      simp [splitLines] at h
  | cons c rest ih =>
      intro line n h hlen
      obtain ⟨m, rfl⟩ : ∃ m, n = m + 1 := ⟨n - 1, by omega⟩
      by_cases hc : c = '\n'
      · subst hc
        rw [splitLines_newline, List.cons.injEq, Prod.mk.injEq] at h
        obtain ⟨⟨rfl, rfl⟩, hlater⟩ := h
        rw [fgets, if_pos rfl]
        exact ⟨rfl, hlater⟩
      · rw [fgets, if_neg hc]
        rcases splitLines_cons hc h with ⟨rfl, rfl, rfl, rfl⟩ | ⟨line', rfl, hrest⟩
        · cases m <;> exact ⟨rfl, rfl⟩
        · obtain ⟨hpiece, hlater⟩ := ih hrest (by simpa using hlen)
          rw [hpiece]
          exact ⟨rfl, hlater⟩

/-- A piece that the line does not fit in, and what is left of the line. -/
theorem fgets_long {later : List (CString × Bool)} {ended : Bool} : ∀ {stdin line : CString}
    {n : Nat}, splitLines stdin = (line, ended) :: later → n ≤ line.length →
    (fgets n stdin).1 = line.take n ∧
      (splitLines (fgets n stdin).2 = (line.drop n, ended) :: later ∨
        line.drop n = [] ∧ splitLines (fgets n stdin).2 = later) := by
  intro stdin
  induction stdin with
  | nil =>
      intro line n h
      simp [splitLines] at h
  | cons c rest ih =>
      intro line n h hlen
      cases n with
      | zero => exact ⟨rfl, Or.inl h⟩
      | succ m =>
          by_cases hc : c = '\n'
          · subst hc
            rw [splitLines_newline, List.cons.injEq, Prod.mk.injEq] at h
            rw [← h.1.1] at hlen
            simp at hlen
          · rw [fgets, if_neg hc]
            rcases splitLines_cons hc h with ⟨rfl, rfl, rfl, rfl⟩ | ⟨line', rfl, hrest⟩
            · have hm : m = 0 := by simpa using hlen
              subst hm
              exact ⟨rfl, Or.inr ⟨rfl, rfl⟩⟩
            · obtain ⟨hpiece, hlater⟩ := ih hrest (by simpa using hlen)
              rw [hpiece]
              exact ⟨rfl, hlater⟩

/-! ### What is sent -/

/-- What `exec_job` is called with for a line without a zero, once it has been cut. -/
def sent (line : CString) : Option CString := if line.all isBlank then none else some (trim line)

theorem sent_of_blank {line : CString} (h : ∀ c ∈ line, isBlank c = true) : sent line = none := by
  unfold sent
  rw [if_pos (List.all_eq_true.mpr h)]

theorem fgets_ne_nil {stdin : CString} (h : stdin ≠ []) (n : Nat) :
    (fgets (n + 1) stdin).1 ≠ [] := by
  cases stdin with
  | nil => exact absurd rfl h
  | cons c rest =>
      rw [fgets]
      split <;> simp

/-- `get_cmd_line` in terms of the piece it reads. -/
theorem getCmdLine_eq (stdin : CString) :
    getCmdLine stdin
      = (if (fgets 1023 stdin).1 = [] then none
          else if (fgets 1023 stdin).1.takeWhile (· ≠ '\x00') = [] then some []
          else sent ((fgets 1023 stdin).1.takeWhile (· ≠ '\x00')).dropLast,
        (fgets 1023 stdin).2) := by
  rfl

theorem getCmdLine_sent {stdin : CString} (h : stdin ≠ []) (hnul : '\x00' ∉ stdin) :
    getCmdLine stdin = (sent (fgets 1023 stdin).1.dropLast, (fgets 1023 stdin).2) := by
  have hne : (fgets 1023 stdin).1 ≠ [] := fgets_ne_nil h 1022
  have hall : (fgets 1023 stdin).1.takeWhile (· ≠ '\x00') = (fgets 1023 stdin).1 := by
    apply List.takeWhile_eq_self_iff.mpr
    intro c hc
    have hmem : c ∈ stdin := by
      rw [← fgets_append 1023 stdin]
      exact List.mem_append_left _ hc
    have hzero : c ≠ '\x00' := by
      rintro rfl
      exact hnul hmem
    simpa using hzero
  rw [getCmdLine_eq, if_neg hne, hall, if_neg hne]

/-- A string that `exec_job` is called with is short and has no zero in it. -/
theorem getCmdLine_text {stdin cmdline : CString} (h : (getCmdLine stdin).1 = some cmdline) :
    '\x00' ∉ cmdline ∧ cmdline.length ≤ 1022 := by
  have hlen := fgets_length 1023 stdin
  rw [getCmdLine_eq] at h
  simp only at h
  split at h
  · simp at h
  · split at h
    · cases h
      exact ⟨by simp, by simp⟩
    · unfold sent at h
      split at h
      · simp at h
      · cases h
        have hpre := trim_isPrefix ((fgets 1023 stdin).1.takeWhile (· ≠ '\x00')).dropLast
        have htake : ((fgets 1023 stdin).1.takeWhile (· ≠ '\x00')).length ≤ _ :=
          ( List.takeWhile_prefix _).length_le
        constructor
        · intro hmem
          have hpiece := List.dropLast_subset _ (hpre.subset hmem)
          have hzero := List.mem_takeWhile_imp hpiece
          simp at hzero
        · have hle := hpre.length_le
          rw [List.length_dropLast] at hle
          omega

theorem core_isPrefix (line : CString) : core line <+: line := List.rdropWhile_prefix isBlank line

theorem core_append_blanks (line : CString) :
    ∃ blanks, line = core line ++ blanks ∧ ∀ c ∈ blanks, isBlank c = true := by
  refine ⟨line.rtakeWhile isBlank, ?_, fun c hc => List.mem_rtakeWhile_imp hc⟩
  exact ( List.rdropWhile_append_rtakeWhile ..).symm

theorem core_concat (line : CString) : core line = [] ∨
    ∃ cmd c, core line = cmd ++ [c] ∧ isBlank c = false := by
  rcases List.eq_nil_or_concat' (core line) with hnil | ⟨cmd, c, hcore⟩
  · exact Or.inl hnil
  · refine Or.inr ⟨cmd, c, hcore, ?_⟩
    have hne : core line ≠ [] := by simp [hcore]
    have hlast := List.rdropWhile_last_not isBlank line hne
    change ¬isBlank ((core line).getLast hne) = true at hlast
    simp only [hcore, List.getLast_append_singleton] at hlast
    simpa using hlast

/-- Behind the core of a line there are only blanks. -/
theorem drop_blank {line : CString} {n : Nat} (h : (core line).length ≤ n) :
    ∀ c ∈ line.drop n, isBlank c = true := by
  obtain ⟨blanks, hline, hblanks⟩ := core_append_blanks line
  intro c hc
  rw [hline, List.drop_append, List.drop_eq_nil_of_le h, List.nil_append] at hc
  exact hblanks c (List.mem_of_mem_drop hc)

theorem core_eq_nil_iff (line : CString) : core line = [] ↔ ∀ c ∈ line, isBlank c = true :=
  List.rdropWhile_eq_nil_iff

theorem mem_commandLines {stdin : CString} {l : CString × Bool} :
    l ∈ commandLines stdin ↔ l ∈ splitLines stdin ∧ core l.1 ≠ [] := by
  unfold commandLines
  rw [List.mem_filter, Ne, core_eq_nil_iff]
  simp

theorem Fits.room_ne {stdin : CString} {l : CString × Bool} (h : Fits l)
    (hl : l ∈ commandLines stdin) : core (room l) ≠ [] := by
  rw [h.whole]
  exact (mem_commandLines.mp hl).2

theorem room_isPrefix (l : CString × Bool) : room l <+: l.1 := by
  unfold room
  split
  · exact List.take_prefix _ _
  · exact (List.take_prefix _ _).trans (List.dropLast_prefix _)

theorem room_length (l : CString × Bool) : (room l).length ≤ 1022 := List.length_take_le _ _

/-- Every line is one piece, and then blanks. -/
theorem fgets_room {stdin line : CString} {ended : Bool} {later : List (CString × Bool)}
    (h : splitLines stdin = (line, ended) :: later) (hshort : (core line).length ≤ 1022) :
    (fgets 1023 stdin).1.dropLast = room (line, ended) ∧
      (splitLines (fgets 1023 stdin).2 = later ∨
        ∃ blanks, (∀ c ∈ blanks, isBlank c = true) ∧
          splitLines (fgets 1023 stdin).2 = (blanks, ended) :: later) := by
  by_cases hlen : line.length < 1023
  · obtain ⟨hpiece, hlater⟩ := fgets_line h hlen
    refine ⟨?_, Or.inl hlater⟩
    rw [hpiece]
    unfold room
    cases ended with
    | true =>
        show (line ++ ['\n']).dropLast = line.take 1022
        rw [List.dropLast_concat, List.take_of_length_le (by omega)]
    | false =>
        show (line ++ []).dropLast = line.dropLast.take 1022
        rw [List.append_nil, List.take_of_length_le (by rw [List.length_dropLast]; omega)]
  · obtain ⟨hpiece, hlater⟩ := fgets_long h (Nat.le_of_not_lt hlen)
    refine ⟨?_, ?_⟩
    · have htake : (line.take 1023).dropLast = line.take 1022 := by
        rw [List.dropLast_eq_take, List.length_take, List.take_take]
        congr 1
        omega
      rw [hpiece, htake]
      unfold room
      cases ended with
      | true => rfl
      | false =>
          show line.take 1022 = line.dropLast.take 1022
          rw [List.dropLast_eq_take, List.take_take]
          congr 1
          omega
    · rcases hlater with hlater | ⟨-, hlater⟩
      · exact Or.inr ⟨line.drop 1023, drop_blank (by omega), hlater⟩
      · exact Or.inl hlater

theorem texts_nil (fuel : Nat) : texts fuel [] = [] := by
  induction fuel with
  | zero => rfl
  | succ fuel ih => exact ih

/-- **The calls, line by line.**  If the lines have no zero and nothing behind their first 1022
characters, each of them is at most one call. -/
theorem texts_lines : ∀ {fuel : Nat} {stdin : CString}, stdin.length ≤ fuel → '\x00' ∉ stdin →
    (∀ l ∈ commandLines stdin, (core l.1).length ≤ 1022) →
    texts fuel stdin = (splitLines stdin).filterMap fun l => sent (room l) := by
  intro fuel
  induction fuel with
  | zero =>
      intro stdin hfuel _ _
      rw [List.length_eq_zero_iff.mp (Nat.le_zero.mp hfuel)]
      rfl
  | succ fuel ih =>
      intro stdin hfuel hnul hshort
      by_cases hne : stdin = []
      · rw [hne, texts_nil]
        rfl
      · cases hsplit : splitLines stdin with
        | nil => exact absurd (splitLines_eq_nil hsplit) hne
        | cons first later =>
            obtain ⟨line, ended⟩ := first
            have hlen : (fgets 1023 stdin).2.length ≤ fuel := by
              have happend := congrArg List.length (fgets_append 1023 stdin)
              have hpos : 0 < (fgets 1023 stdin).1.length :=
                List.length_pos_of_ne_nil (fgets_ne_nil hne 1022)
              rw [List.length_append] at happend
              omega
            have hnul' : '\x00' ∉ (fgets 1023 stdin).2 := by
              intro hmem
              apply hnul
              rw [← fgets_append 1023 stdin]
              exact List.mem_append_right _ hmem
            have hfirst : (core line).length ≤ 1022 := by
              by_cases hnil : core line = []
              · rw [hnil]
                exact Nat.zero_le _
              · exact hshort (line, ended) (mem_commandLines.mpr ⟨by rw [hsplit]; simp, hnil⟩)
            obtain ⟨hroom, hrest⟩ := fgets_room hsplit hfirst
            rw [texts, getCmdLine_sent hne hnul, hroom, List.filterMap_cons]
            have hlater : texts fuel (fgets 1023 stdin).2
                = later.filterMap fun l => sent (room l) := by
              have hmore : ∀ l ∈ later, core l.1 ≠ [] → (core l.1).length ≤ 1022 := by
                intro l hl hnil
                exact hshort l (mem_commandLines.mpr ⟨by rw [hsplit]; simp [hl], hnil⟩)
              rcases hrest with hrest | ⟨blanks, hblanks, hrest⟩
              · rw [ih hlen hnul' ?_, hrest]
                intro l hl
                rw [mem_commandLines, hrest] at hl
                exact hmore l hl.1 hl.2
              · -- The rest of a long line is blank, and sends nothing.
                have hnone : sent (room (blanks, ended)) = none :=
                  sent_of_blank fun c hc => hblanks c ((room_isPrefix _).subset hc)
                rw [ih hlen hnul' ?_, hrest, List.filterMap_cons, hnone]
                intro l hl
                rw [mem_commandLines, hrest, List.mem_cons] at hl
                rcases hl with ⟨rfl | hl, hnil⟩
                · exact absurd ((core_eq_nil_iff _).mpr hblanks) hnil
                · exact hmore l hl hnil
            simp only [hlater]
            cases sent (room (line, ended)) <;> rfl

theorem sent_of_core_nil {l : CString × Bool} (h : core l.1 = []) : sent (room l) = none :=
  sent_of_blank fun c hc => (core_eq_nil_iff _).mp h c ((room_isPrefix _).subset hc)

/-- Blank lines send nothing. -/
theorem filterMap_commandLines (stdin : CString) :
    ((splitLines stdin).filterMap fun l => sent (room l))
      = (commandLines stdin).filterMap fun l => sent (room l) := by
  unfold commandLines
  induction splitLines stdin with
  | nil => rfl
  | cons l rest ih =>
      cases hblank : l.1.all isBlank with
      | true =>
          have hnone : sent (room l) = none :=
            sent_of_core_nil ((core_eq_nil_iff _).mpr (List.all_eq_true.mp hblank))
          rw [List.filterMap_cons, hnone, List.filter_cons_of_neg (by simp [hblank])]
          exact ih
      | false =>
          rw [List.filter_cons_of_pos (by simp [hblank]), List.filterMap_cons, List.filterMap_cons,
            ih]

theorem mem_splitLines {c : Char} (hc : c ≠ '\n') : ∀ {stdin : CString}, c ∈ stdin →
    ∃ l ∈ splitLines stdin, c ∈ l.1 := by
  intro stdin
  induction stdin with
  | nil =>
      intro h
      simp at h
  | cons d rest ih =>
      intro h
      by_cases hd : d = '\n'
      · subst hd
        rw [splitLines_newline]
        rcases List.mem_cons.mp h with heq | hrest
        · exact absurd heq hc
        · obtain ⟨l, hl, hmem⟩ := ih hrest
          exact ⟨l, List.mem_cons_of_mem _ hl, hmem⟩
      · cases hsplit : splitLines (d :: rest) with
        | nil => exact absurd (splitLines_eq_nil hsplit) (by simp)
        | cons first later =>
            obtain ⟨line, ended⟩ := first
            rcases splitLines_cons hd hsplit with ⟨rfl, rfl, -, -⟩ | ⟨line', rfl, hrest⟩
            · exact ⟨([d], ended), by simp, h⟩
            · rcases List.mem_cons.mp h with rfl | hmem
              · exact ⟨(c :: line', ended), by simp, by simp⟩
              · obtain ⟨l, hl, hcl⟩ := ih hmem
                rw [hrest] at hl
                rcases List.mem_cons.mp hl with rfl | hl
                · exact ⟨(d :: line', ended), by simp, List.mem_cons_of_mem _ hcl⟩
                · exact ⟨l, List.mem_cons_of_mem _ hl, hcl⟩

/-- A zero in the input is in a line that is not blank. -/
theorem noNul_of_lines {stdin : CString} (h : ∀ l ∈ commandLines stdin, '\x00' ∉ l.1) :
    '\x00' ∉ stdin := by
  intro hmem
  obtain ⟨l, hl, hzero⟩ := mem_splitLines (by decide) hmem
  refine h l (mem_commandLines.mpr ⟨hl, ?_⟩) hzero
  intro hnil
  exact absurd ((core_eq_nil_iff _).mp hnil _ hzero) (by decide)

/-! ### Lines and calls -/

/-- Less of a line does not have a longer core. -/
theorem core_length_le {start line : CString} (h : start <+: line) :
    (core start).length ≤ (core line).length := by
  by_contra hlt
  have hne : (core start).drop (core line).length ≠ [] := by
    intro hnil
    rw [List.drop_eq_nil_iff] at hnil
    omega
  have hpre : core start <+: line := (core_isPrefix start).trans h
  have hcore : core start ≠ [] := by
    intro hnil
    rw [hnil, List.drop_nil] at hne
    exact hne rfl
  have hlast : (core start).getLast hcore ∈ line.drop (core line).length := by
    obtain ⟨later, hlater⟩ := hpre
    rw [← List.getLast_drop hne]
    nth_rewrite 2 [← hlater]
    rw [List.drop_append]
    exact List.mem_append_left _ (List.getLast_mem hne)
  exact List.rdropWhile_last_not isBlank start hcore (drop_blank (le_refl _) _ hlast)

/-- The whole line is sent exactly when it is in the buffer and nothing is lost with the
blanks. -/
theorem sameText_trim_iff (l : CString × Bool) :
    SameText (trim (room l)) l.1 ↔ core (room l) = core l.1 ∧ ¬LosesLast (room l) := by
  unfold SameText
  constructor
  · intro hsame
    have hle := core_length_le (trim_isPrefix (room l))
    have hle' := core_length_le (room_isPrefix l)
    rw [hsame] at hle
    have hwhole : core (room l) = core l.1 := by
      have hpre : core (room l) <+: l.1 := (core_isPrefix _).trans (room_isPrefix l)
      have hboth := List.prefix_of_prefix_length_le hpre (core_isPrefix l.1) hle'
      exact hboth.eq_of_length (by omega)
    exact ⟨hwhole, (core_trim_iff _).mp (by rw [hsame, hwhole])⟩
  · rintro ⟨hwhole, hkept⟩
    rw [(core_trim_iff _).mpr hkept, hwhole]

theorem forall₂_right {β γ : Type} {R : β → γ → Prop} {calls : List β} {lines : List γ}
    (h : List.Forall₂ R calls lines) : ∀ line ∈ lines, ∃ call ∈ calls, R call line := by
  induction h with
  | nil => simp
  | @cons call line calls lines hfirst _ ih =>
      intro other hmem
      rcases List.mem_cons.mp hmem with rfl | hlater
      · exact ⟨call, by simp, hfirst⟩
      · obtain ⟨found, hfound, hsame⟩ := ih other hlater
        exact ⟨found, List.mem_cons_of_mem _ hfound, hsame⟩

/-- As many calls as lines: each line is one. -/
theorem forall₂_filterMap {α β γ : Type} {R : β → γ → Prop} {f : α → Option β} {g : α → γ} :
    ∀ {l : List α}, List.Forall₂ R (l.filterMap f) (l.map g) →
      ∀ x ∈ l, ∃ y, f x = some y ∧ R y (g x) := by
  intro l
  induction l with
  | nil =>
      intro _ x hx
      simp at hx
  | cons a l ih =>
      intro h x hx
      rw [List.filterMap_cons, List.map_cons] at h
      cases hf : f a with
      | none =>
          simp only [hf] at h
          have hlen := h.length_eq
          have hle := List.length_filterMap_le f l
          rw [List.length_cons, List.length_map] at hlen
          omega
      | some y =>
          simp only [hf] at h
          cases h with
          | cons hy hrest =>
              rcases List.mem_cons.mp hx with rfl | hx
              · exact ⟨y, hf, hy⟩
              · exact ih hrest x hx

theorem texts_mem {fuel : Nat} {stdin cmdline : CString} (h : cmdline ∈ texts fuel stdin) :
    '\x00' ∉ cmdline ∧ cmdline.length ≤ 1022 := by
  induction fuel generalizing stdin with
  | zero => simp [texts] at h
  | succ fuel ih =>
      rw [texts, List.mem_append] at h
      rcases h with hfirst | hlater
      · exact getCmdLine_text (by simpa using hfirst)
      · exact ih hlater

/-- A line that some string is the text of has no zero, and nothing behind its first 1022
characters. -/
theorem short_of_sameText {cmdline line : CString} (h : SameText cmdline line)
    (hnul : '\x00' ∉ cmdline) (hlen : cmdline.length ≤ 1022) :
    '\x00' ∉ line ∧ (core line).length ≤ 1022 := by
  have hpre := core_isPrefix cmdline
  rw [SameText] at h
  constructor
  · intro hmem
    obtain ⟨blanks, hline, hblanks⟩ := core_append_blanks line
    rw [hline, ← h, List.mem_append] at hmem
    rcases hmem with hcore | hblank
    · exact hnul (hpre.subset hcore)
    · exact absurd (hblanks _ hblank) (by decide)
  · rw [← h]
    exact hpre.length_le.trans hlen

theorem sent_eq_some_iff {line cmdline : CString} :
    sent line = some cmdline ↔ core line ≠ [] ∧ trim line = cmdline := by
  unfold sent
  rw [Ne, core_eq_nil_iff, ← List.all_eq_true]
  split
  · rename_i hblank
    simp [hblank]
  · rename_i hblank
    simp [hblank]

/-- Lines of which nothing is lost are the calls. -/
theorem filterMap_sent {lines : List (CString × Bool)}
    (h : ∀ l ∈ lines, sent (room l) = some (textOf l)) :
    lines.filterMap (fun l => sent (room l)) = lines.map textOf := by
  rw [← List.filterMap_eq_map]
  exact List.filterMap_congr h

/-- Lines of which nothing is lost are called one after the other. -/
theorem texts_of_fits {stdin : CString} (h : ∀ l ∈ commandLines stdin, Fits l) :
    texts stdin.length stdin = (commandLines stdin).map textOf := by
  rw [texts_lines (le_refl _) (noNul_of_lines fun l hl => (h l hl).noNul) ?_,
    filterMap_commandLines, filterMap_sent ?_]
  · intro l hl
    exact sent_eq_some_iff.mpr ⟨(h l hl).room_ne hl, rfl⟩
  · intro l hl
    rw [← (h l hl).whole]
    exact (core_isPrefix _).length_le.trans (room_length l)

end Shell
