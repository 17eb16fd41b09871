/-
Which lines are taken for built-ins.

`exit` and `jobs` are compared with the whole text, the other names with the first word
between spaces, and by then `exec_job` has put a zero where the `&` was.  So a blank in
front of `exit` or behind it, or another word, hides it, and a tab next to `cd` belongs
to the word.  A text of spaces alone has no first word to compare with.

The words between blanks are what these texts should be judged by (`Agrees`), and
`Recognisable` is exactly when they are.
-/
import KernelProgramming.Proofs.Shell.Quoting

namespace Shell

open Fuel Tokens

variable {line : Line} {front : Nat → Char} {cmd name : CString} {async : Bool}

/-! ### What is asked for -/

/-- The words between the blanks. -/
def words (cmd : CString) : List CString := tokens isBlank cmd

/-- The shell goes on as if nothing had been entered.  There is no such action: each of them
ends the shell, prints, signals, changes the directory or starts a command. -/
def Action.idle : Action → Bool
  | .exit | .jobs | .cd _ | .bg _ | .fg _ | .crash | .launch _ _ => false

/-- What `exec_job` does is what the words say. -/
structure Agrees (words : List CString) (action : Action) : Prop where
  exit : action = .exit ↔ words.head? = some "exit".toList
  jobs : action = .jobs ↔ words.head? = some "jobs".toList
  cd : (∃ argv, action = .cd argv) ↔ words.head? = some "cd".toList
  bg : (∃ argv, action = .bg argv) ↔ words.head? = some "bg".toList
  fg : (∃ argv, action = .fg argv) ↔ words.head? = some "fg".toList
  idle : words = [] → action.idle = true
  notNull : action ≠ .crash

/-- Built-ins are recognised by the words of the line, the `&` removed. -/
def RecognisesWords (line : Line) (front : Nat → Char) : Prop :=
  ∃ action, Dispatches line front action ∧ Agrees (words (cutAsync line.text).1) action

/-- There is a word; if it is `exit` or `jobs` there is nothing else in the text, and if it is one
of the other names there is no tab in front of it and none right behind it. -/
structure Recognisable (cmd : CString) : Prop where
  word : words cmd ≠ []
  exit : (words cmd).head? = some "exit".toList → cmd = "exit".toList ∨ cmd = "exit &".toList
  jobs : (words cmd).head? = some "jobs".toList → cmd = "jobs".toList
  others : ∀ name ∈ internalWords, (words cmd).head? = some name →
    ∃ rest, cmd.dropWhile (· == ' ') = name ++ rest ∧ rest.head? ≠ some '\t'

/-! ### What `exec_internal_cmd` does -/

/-- The built-in that is run. -/
def Action.builtin : Action → Option CString
  | .exit => some "exit".toList
  | .jobs => some "jobs".toList
  | .cd _ => some "cd".toList
  | .bg _ => some "bg".toList
  | .fg _ => some "fg".toList
  | .crash => none
  | .launch _ _ => none

theorem agrees_iff {ws : List CString} {action : Action} : Agrees ws action ↔
    (∀ name ∈ "exit".toList :: "jobs".toList :: internalWords,
      action.builtin = some name ↔ ws.head? = some name) ∧ ws ≠ [] ∧ action ≠ .crash := by
  have hidle : action.idle = false := by cases action <;> rfl
  have hexit : action = .exit ↔ action.builtin = some "exit".toList := by
    cases action <;> simp [Action.builtin]
  have hjobs : action = .jobs ↔ action.builtin = some "jobs".toList := by
    cases action <;> simp [Action.builtin]
  have hcd : (∃ argv, action = .cd argv) ↔ action.builtin = some "cd".toList := by
    cases action <;> simp [Action.builtin]
  have hbg : (∃ argv, action = .bg argv) ↔ action.builtin = some "bg".toList := by
    cases action <;> simp [Action.builtin]
  have hfg : (∃ argv, action = .fg argv) ↔ action.builtin = some "fg".toList := by
    cases action <;> simp [Action.builtin]
  constructor
  · intro h
    refine ⟨?_, fun hnil => ?_, h.notNull⟩
    · simp only [internalWords, List.forall_mem_cons]
      exact ⟨hexit.symm.trans h.exit, hjobs.symm.trans h.jobs, hcd.symm.trans h.cd,
        hbg.symm.trans h.bg, hfg.symm.trans h.fg, fun _ hmem => absurd hmem List.not_mem_nil⟩
    · have hnot := h.idle hnil
      rw [hidle] at hnot
      cases hnot
  · rintro ⟨hnames, hne, hnull⟩
    simp only [internalWords, List.forall_mem_cons] at hnames
    obtain ⟨hexit', hjobs', hcd', hbg', hfg', -⟩ := hnames
    exact ⟨hexit.trans hexit', hjobs.trans hjobs', hcd.trans hcd', hbg.trans hbg',
      hfg.trans hfg', fun hnil => absurd hnil hne, hnull⟩

/-- The built-in a single command is taken for. -/
theorem builtin_actionFor (cmd : Line) (async : Bool) : (actionFor [cmd] async).builtin
    = if cmd.text = "exit".toList ∨ cmd.text = "exit &".toList then some "exit".toList
      else if cmd.text = "jobs".toList then some "jobs".toList
      else (strtok cmd.text).head?.filter (· ∈ internalWords) := by
  unfold actionFor execInternalCmd
  simp only
  split
  · rfl
  · split
    · rfl
    · cases hwords : strtok cmd.text with
      | nil => rfl
      | cons word args =>
          simp only [List.head?_cons, Option.filter_some, internalWords, List.mem_cons,
            List.not_mem_nil, or_false]
          by_cases hcd : word = "cd".toList
          · simp [hcd, Action.builtin]
          · by_cases hbg : word = "bg".toList
            · simp [hbg, Action.builtin]
            · by_cases hfg : word = "fg".toList
              · simp [hfg, Action.builtin]
              · rw [if_neg hcd, if_neg hbg, if_neg hfg, if_neg (by simp only [hcd, hbg, hfg]; decide)]
                rfl

theorem actionFor_ne_crash {cmd : Line} (h : strtok cmd.text ≠ []) (async : Bool) :
    actionFor [cmd] async ≠ .crash := by
  obtain ⟨word, args, hwords⟩ := List.exists_cons_of_ne_nil h
  unfold actionFor execInternalCmd
  simp only [hwords]
  split_ifs <;> simp

/-! ### The first words -/

theorem internalWords_notBlank (hname : name ∈ internalWords) :
    name ≠ [] ∧ ∀ c ∈ name, isBlank c = false := by
  simp only [internalWords, List.mem_cons, List.not_mem_nil, or_false] at hname
  rcases hname with rfl | rfl | rfl
  all_goals exact ⟨by decide, by simp [isBlank]⟩

/-- Spaces are blanks, so they may be dropped first. -/
theorem dropWhile_spaces (cmd : CString) :
    (cmd.dropWhile (· == ' ')).dropWhile isBlank = cmd.dropWhile isBlank := by
  induction cmd with
  | nil => rfl
  | cons c cmd ih =>
      by_cases hc : c = ' '
      · subst hc
        rw [List.dropWhile_cons_of_pos (by rfl), List.dropWhile_cons_of_pos (by rfl), ih]
      · rw [List.dropWhile_cons_of_neg (by simpa using hc)]

theorem dropWhile_name (hname : name ∈ internalWords) (rest : CString) :
    (name ++ rest).dropWhile isBlank = name ++ rest := by
  obtain ⟨hne, hblank⟩ := internalWords_notBlank hname
  obtain ⟨c, name', rfl⟩ := List.exists_cons_of_ne_nil hne
  rw [List.cons_append, List.dropWhile_cons_of_neg]
  rw [hblank c (List.mem_cons_self ..)]
  decide

/-- **The first word between spaces** is one of the names if it is the first word between blanks
and has no tab next to it. -/
theorem strtok_head_iff (hname : name ∈ internalWords) : (strtok cmd).head? = some name ↔
    (words cmd).head? = some name ∧
      ∃ rest, cmd.dropWhile (· == ' ') = name ++ rest ∧ rest.head? ≠ some '\t' := by
  obtain ⟨hne, hblank⟩ := internalWords_notBlank hname
  rw [strtok_eq_tokens, words, head?_tokens, head?_tokens]
  constructor
  · rintro ⟨-, hspace, rest, hdrop, hrest⟩
    have hdrop' : cmd.dropWhile isBlank = name ++ rest := by
      rw [← dropWhile_spaces, hdrop, dropWhile_name hname]
    refine ⟨⟨hne, hblank, rest, hdrop', fun c hc => ?_⟩, rest, hdrop, fun htab => ?_⟩
    · rw [eq_of_beq (hrest c hc)]
      rfl
    · exact absurd (hrest '\t' htab) (by decide)
  · rintro ⟨⟨-, -, rest', hdrop', hrest'⟩, rest, hdrop, htab⟩
    have hsame : rest' = rest := by
      rw [← dropWhile_spaces, hdrop, dropWhile_name hname] at hdrop'
      exact (List.append_cancel_left hdrop').symm
    subst hsame
    refine ⟨hne, fun c hc => ?_, rest', hdrop, fun c hc => ?_⟩
    · refine beq_eq_false_iff_ne.mpr ?_
      rintro rfl
      exact absurd (hblank ' ' hc) (by decide)
    · have hc' := hrest' c hc
      simp only [isBlank, Bool.or_eq_true, decide_eq_true_eq] at hc'
      rcases hc' with rfl | rfl
      · rfl
      · exact absurd hc htab

/-- Where there is a word between blanks there is one between spaces. -/
theorem strtok_ne_nil (h : words cmd ≠ []) : strtok cmd ≠ [] := by
  rw [Ne, strtok_eq_nil_iff]
  intro hspaces
  refine h (tokens_eq_nil_iff.mpr fun c hc => ?_)
  rw [hspaces c hc]
  rfl

/-! ### When the two agree -/

theorem builtin_exit_iff {cmd : Line} : (actionFor [cmd] async).builtin = some "exit".toList
    ↔ cmd.text = "exit".toList ∨ cmd.text = "exit &".toList := by
  rw [builtin_actionFor]
  split_ifs with hexit hjobs
  · exact iff_of_true rfl hexit
  · exact iff_of_false (by decide) hexit
  · refine iff_of_false (fun hfilter => ?_) hexit
    exact absurd (Option.filter_eq_some_iff.mp hfilter).2 (by decide)

theorem builtin_jobs_iff {cmd : Line} : (actionFor [cmd] async).builtin = some "jobs".toList
    ↔ cmd.text = "jobs".toList := by
  rw [builtin_actionFor]
  split_ifs with hexit hjobs
  · refine iff_of_false (by decide) ?_
    rintro hjobs
    rw [hjobs] at hexit
    exact absurd hexit (by decide)
  · exact iff_of_true rfl hjobs
  · refine iff_of_false (fun hfilter => ?_) hjobs
    exact absurd (Option.filter_eq_some_iff.mp hfilter).2 (by decide)

theorem builtin_internal_iff {cmd : Line} (hname : name ∈ internalWords) :
    (actionFor [cmd] async).builtin = some name ↔ (strtok cmd.text).head? = some name := by
  -- the whole texts have none of the names in front
  have hother : ∀ text ∈ ["exit".toList, "exit &".toList, "jobs".toList],
      ∀ other ∈ ["exit".toList, "jobs".toList],
        (some other = some name ↔ (strtok text).head? = some name) := by
    simp only [internalWords, List.mem_cons, List.not_mem_nil, or_false] at hname
    rcases hname with rfl | rfl | rfl <;> decide
  rw [builtin_actionFor]
  split_ifs with hexit hjobs
  · rcases hexit with htext | htext
    · rw [htext]
      exact hother _ (by decide) _ (by decide)
    · rw [htext]
      exact hother _ (by decide) _ (by decide)
  · rw [hjobs]
    exact hother _ (by decide) _ (by decide)
  · rw [Option.filter_eq_some_iff]
    exact and_iff_left (decide_eq_true hname)

/-- The words decide exactly for the texts that `Recognisable` describes. -/
theorem agrees_actionFor_iff (cmd : Line) (async : Bool) :
    Agrees (words cmd.text) (actionFor [cmd] async) ↔ Recognisable cmd.text := by
  rw [agrees_iff]
  constructor
  · rintro ⟨hnames, hne, -⟩
    refine ⟨hne, fun hexit => ?_, fun hjobs => ?_, fun name hname hhead => ?_⟩
    · exact builtin_exit_iff.mp ((hnames _ (by simp)).mpr hexit)
    · exact builtin_jobs_iff.mp ((hnames _ (by simp)).mpr hjobs)
    · have hbuiltin := (hnames name (by simp [hname])).mpr hhead
      exact ((strtok_head_iff hname).mp ((builtin_internal_iff hname).mp hbuiltin)).2
  · intro h
    refine ⟨fun name hmem => ?_, h.word, actionFor_ne_crash (strtok_ne_nil h.word) async⟩
    rcases List.mem_cons.mp hmem with rfl | hmem
    · rw [builtin_exit_iff]
      refine ⟨fun htext => ?_, h.exit⟩
      rcases htext with htext | htext
      · rw [htext]
        decide
      · rw [htext]
        decide
    · rcases List.mem_cons.mp hmem with rfl | hname
      · rw [builtin_jobs_iff]
        refine ⟨fun htext => ?_, h.jobs⟩
        rw [htext]
        decide
      · rw [builtin_internal_iff hname, strtok_head_iff hname]
        exact and_iff_left_of_imp (h.others name hname)

/-- A line without pipes is one command. -/
theorem dispatches_single (front : Nat → Char) (hne : line.text ≠ []) (hpipe : '|' ∉ line.text) :
    ∃ cmd, cmd.text = (cutAsync line.text).1 ∧
      Dispatches line front (actionFor [cmd] (cutAsync line.text).2) := by
  have hcut : '|' ∉ (cutAsync line.text).1 := fun hmem =>
    hpipe ((cutAsync_isPrefix line.text).subset hmem)
  have hfew : (pieces (cutAsync line.text).1).length ≤ maxPipe := by
    rw [pieces_of_notMem hcut, List.length_singleton]
    decide
  have hfront : line.text = [] → front 0 ≠ '&' := fun hnil => absurd hnil hne
  obtain ⟨cmds, hsplits, htexts, -⟩ := splits_pieces hfront hfew
  rw [pieces_of_notMem hcut] at htexts
  obtain ⟨cmd, rfl, htext⟩ := List.map_eq_singleton_iff.mp htexts
  exact ⟨cmd, htext, hsplits.dispatches⟩

theorem recognisesWords_of_ne_nil (hne : line.text ≠ []) (hpipe : '|' ∉ line.text) :
    RecognisesWords line front ↔ Recognisable (cutAsync line.text).1 := by
  obtain ⟨cmd, htext, hdispatches⟩ := dispatches_single front hne hpipe
  rw [← htext, ← agrees_actionFor_iff cmd (cutAsync line.text).2]
  constructor
  · rintro ⟨action, haction, hagrees⟩
    rw [haction.unique hdispatches, ← htext] at hagrees
    exact hagrees
  · intro hagrees
    refine ⟨_, hdispatches, ?_⟩
    rw [← htext]
    exact hagrees

/-- **When built-ins are recognised by the words**, for a line without pipes. -/
theorem recognisesWords_iff (hpipe : '|' ∉ line.text) :
    RecognisesWords line front ↔ Recognisable (cutAsync line.text).1 := by
  by_cases hne : line.text = []
  · -- there is no word, and no action that does nothing
    have hwords : words (cutAsync line.text).1 = [] := by
      rw [hne]
      rfl
    refine iff_of_false ?_ fun h => h.word hwords
    rintro ⟨action, -, hagrees⟩
    exact (agrees_iff.mp hagrees).2.1 hwords
  · exact recognisesWords_of_ne_nil hne hpipe

/-- `cd  /tmp`. -/
def cdTmp : Line where
  text := "cd  /tmp".toList
  noNul := by decide
  rest _ := '\x00'

theorem words_cdTmp : words "cd  /tmp".toList = ["cd".toList, "/tmp".toList] := by
  have htmp : words "/tmp".toList = ["/tmp".toList] := tokens_single (by decide) (by simp [isBlank])
  calc words "cd  /tmp".toList
      = words ("cd".toList ++ ' ' :: " /tmp".toList) := rfl
    _ = "cd".toList :: words (' ' :: "/tmp".toList) :=
        tokens_append_sep (by decide) (by simp [isBlank]) rfl _
    _ = "cd".toList :: words "/tmp".toList := congrArg _ (tokens_sep rfl _)
    _ = ["cd".toList, "/tmp".toList] := by rw [htmp]

/-- Two spaces behind `cd` do no harm. -/
theorem recognisesWords_cdTmp : RecognisesWords cdTmp fun _ => '\x00' := by
  have hpipe : '|' ∉ cdTmp.text := by decide
  have hcut : (cutAsync cdTmp.text).1 = "cd  /tmp".toList := by decide
  refine (recognisesWords_iff hpipe).mpr ?_
  rw [hcut]
  refine ⟨?_, fun hexit => ?_, fun hjobs => ?_, fun name _ hhead => ?_⟩
  · rw [words_cdTmp]
    decide
  · rw [words_cdTmp] at hexit
    exact absurd hexit (by decide)
  · rw [words_cdTmp] at hjobs
    exact absurd hjobs (by decide)
  · rw [words_cdTmp] at hhead
    cases hhead
    exact ⟨"  /tmp".toList, by decide, by decide⟩

/-- ` exit`. -/
def spaceExit : Line where
  text := " exit".toList
  noNul := by decide
  rest _ := '\x00'

/-- The line is accepted, but the blank in front hides the command: a child is started for it. -/
theorem spaceExit_not_recognised : (getCmdLine " exit\n".toList).1 = some spaceExit.text ∧
    ¬RecognisesWords spaceExit (fun _ => '\x00') := by
  refine ⟨by decide, fun h => ?_⟩
  have hne : spaceExit.text ≠ [] := by decide
  have hpipe : '|' ∉ spaceExit.text := by decide
  have hexit := ((recognisesWords_of_ne_nil hne hpipe).mp h).exit (by decide)
  exact absurd hexit (by decide)

end Shell
