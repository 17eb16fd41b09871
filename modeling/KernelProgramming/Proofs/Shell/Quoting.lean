/-
What quotes protect.

The quotes of a command are known to `process_cmd` alone.  By then `exec_job` has cut the
line at every `|`, and has compared its first word with the built-ins.  And the function
that performs the redirections is called for characters in quotes as well as for others:
wherever a `<` or `>` stands, except at the very end, some redirection is performed
(`reads_redirects`).  The scan may jump over blanks and over `$$` and `$?`, but not over
such a character.

So a string in single quotes is one argument exactly when it has none of these characters
(`quoted_alone_iff`).
-/
import KernelProgramming.Proofs.Shell.Split

namespace Shell

variable {pid exitStatus : Int} {line : Line} {front : Nat → Char} {s s' r : Scan}
  {fuel i j k : Nat} {left : Bool}

/-! ### What an iteration can do -/

/-- The ways through the body of the loop. -/
inductive Iteration (pid exitStatus : Int) (line : Line) (fuel : Nat) (s : Scan) :
    Bool → Scan → Prop
  | delim {i : Nat} (hdelim : isDelim (line.get s.i) s.delim = true)
      (hskip : skipBlanks line fuel (s.i + 1) = some i) :
      Iteration pid exitStatus line fuel s false
        { s.endArg with
          i := i
          arg := []
          delim := if s.delim = '\'' ∨ s.delim = '"' then ' ' else s.delim }
  | last (hlast : s.i = line.strlen - 1) (arg : CString) :
      Iteration pid exitStatus line fuel s true { s with arg := arg }.endArg
  | quote (hquote : line.get s.i = '"' ∨ line.get s.i = '\'') :
      Iteration pid exitStatus line fuel s false { s with delim := line.get s.i, i := s.i + 1 }
  | dollar (hdollar : line.get s.i = '$')
      (hmark : line.get (s.i + 1) = '$' ∨ line.get (s.i + 1) = '?') (arg : CString)
      (argv : List CString) :
      Iteration pid exitStatus line fuel s false { s with arg := arg, argv := argv, i := s.i + 2 }
  | copy {i : Nat} (hnone : processRedirection line fuel s.i = some (none, i)) :
      Iteration pid exitStatus line fuel s false
        { s with arg := s.arg ++ [line.get s.i], i := s.i + 1 }
  | redirect {i : Nat} {redirection : Redirection}
      (hsome : processRedirection line fuel s.i = some (some redirection, i)) :
      Iteration pid exitStatus line fuel s false
        { s with i := i, redirections := s.redirections ++ [redirection] }

theorem scanBody_iteration (h : scanBody pid exitStatus line fuel s = some (left, s')) :
    Iteration pid exitStatus line fuel s left s' := by
  unfold scanBody at h
  dsimp only at h
  split at h
  · rename_i hdelim
    obtain ⟨i, hskip, heq⟩ := Option.map_eq_some_iff.mp h
    cases heq
    exact Iteration.delim hdelim hskip
  · split at h
    · rename_i hlast
      cases h
      exact Iteration.last hlast _
    · split at h
      · rename_i hquote
        cases h
        exact Iteration.quote hquote.1
      · split at h
        · rename_i hdollar
          cases h
          split
          · exact Iteration.dollar hdollar.2.1 hdollar.2.2 _ _
          · exact Iteration.dollar hdollar.2.1 hdollar.2.2 _ _
        · obtain ⟨⟨redirection, i⟩, hprocess, heq⟩ := Option.map_eq_some_iff.mp h
          cases redirection with
          | none =>
              cases heq
              exact Iteration.copy hprocess
          | some redirection =>
              cases heq
              exact Iteration.redirect hprocess

/-- What has been redirected stays so. -/
theorem Iteration.redirections (h : Iteration pid exitStatus line fuel s left s') :
    s.redirections <+: s'.redirections := by
  cases h with
  | redirect hsome => exact List.prefix_append _ _
  | _ => exact List.prefix_rfl

theorem scanLoop_redirections : ∀ {fuel : Nat} {s : Scan},
    scanLoop pid exitStatus line fuel s = some r → s.redirections <+: r.redirections := by
  intro fuel
  induction fuel with
  | zero =>
      intro s h
      simp [scanLoop] at h
  | succ fuel ih =>
      intro s h
      rw [scanLoop] at h
      split at h
      · obtain ⟨⟨left, s'⟩, hbody, hrest⟩ := Option.bind_eq_some_iff.mp h
        have hstep := (scanBody_iteration hbody).redirections
        cases left with
        | true =>
            cases hrest
            exact hstep
        | false => exact hstep.trans (ih hrest)
      · cases h
        exact List.prefix_rfl

/-! ### Redirections are not protected -/

theorem skipBlanks_le (hk : isBlank (line.get k) = false) : ∀ {fuel i : Nat}, i ≤ k →
    skipBlanks line fuel i = some j → j ≤ k := by
  intro fuel
  induction fuel with
  | zero =>
      intro i _ h
      simp [skipBlanks] at h
  | succ fuel ih =>
      intro i hle h
      rw [skipBlanks, isDelim_blank] at h
      split at h
      · rename_i hblank
        have hne : i ≠ k := by
          rintro rfl
          rw [hk] at hblank
          exact absurd hblank (by decide)
        exact ih (by omega) h
      · cases h
        exact hle

theorem processRedirection_none (h : processRedirection line fuel i = some (none, j)) :
    line.get i ≠ '<' ∧ line.get i ≠ '>' := by
  have hsome : ∀ (kind : CString → Redirection) (i : Nat),
      ((getPath line fuel i).bind fun found =>
        (skipBlanks line fuel (found.2 + 1)).map fun i => (some (kind found.1), i))
        ≠ some (none, j) := by
    intro kind i hnone
    obtain ⟨found, -, hrest⟩ := Option.bind_eq_some_iff.mp hnone
    obtain ⟨i'', -, heq⟩ := Option.map_eq_some_iff.mp hrest
    cases heq
  unfold processRedirection at h
  dsimp only at h
  split at h
  · split at h
    · exact absurd h (hsome (.output · true) _)
    · exact absurd h (hsome (.output · false) _)
  · rename_i houtput
    split at h
    · exact absurd h (hsome .outputAndError _)
    · split at h
      · exact absurd h (hsome .input _)
      · rename_i hinput
        exact ⟨hinput, houtput⟩

/-- The scan has not passed the character at `k`, and what it looks for is a blank or a quote. -/
structure Ahead (k : Nat) (s : Scan) : Prop where
  before : s.i ≤ k
  delim : s.delim = ' ' ∨ s.delim = '\'' ∨ s.delim = '"'

/-- **A `<` or `>` is not passed by.** -/
theorem Iteration.ahead (hk : line.get k = '<' ∨ line.get k = '>') (hlast : k + 1 < line.strlen)
    (hs : Ahead k s) (h : Iteration pid exitStatus line fuel s left s') :
    left = false ∧ (Ahead k s' ∨ s'.redirections ≠ []) := by
  have hle := hs.before
  -- Any other character than `<` and `>` stands in front of `k`.
  have hlt : ∀ {i : Nat}, i ≤ k → line.get i ≠ '<' ∧ line.get i ≠ '>' → i < k := by
    rintro i hi ⟨hinput, houtput⟩
    refine Nat.lt_of_le_of_ne hi ?_
    rintro rfl
    exact hk.elim hinput houtput
  cases h with
  | delim hdelim hskip =>
      have hother : line.get s.i ≠ '<' ∧ line.get s.i ≠ '>' := by
        constructor
        · intro hget
          rw [hget] at hdelim
          rcases hs.delim with hd | hd | hd <;> rw [hd] at hdelim <;> exact absurd hdelim (by decide)
        · intro hget
          rw [hget] at hdelim
          rcases hs.delim with hd | hd | hd <;> rw [hd] at hdelim <;> exact absurd hdelim (by decide)
      have hblank : isBlank (line.get k) = false := by
        rcases hk with hk | hk <;> rw [hk] <;> rfl
      refine ⟨rfl, Or.inl ⟨skipBlanks_le hblank (hlt hle hother) hskip, ?_⟩⟩
      dsimp only
      split
      · exact Or.inl rfl
      · exact hs.delim
  | last hend arg => omega
  | quote hquote =>
      have hother : line.get s.i ≠ '<' ∧ line.get s.i ≠ '>' := by
        rcases hquote with hget | hget <;> rw [hget] <;> decide
      exact ⟨rfl, Or.inl ⟨hlt hle hother, Or.inr (Or.symm hquote)⟩⟩
  | dollar hdollar hmark arg argv =>
      have hfirst : s.i < k := hlt hle (by rw [hdollar]; decide)
      have hsecond : s.i + 1 < k := by
        refine hlt hfirst ?_
        rcases hmark with hget | hget <;> rw [hget] <;> decide
      exact ⟨rfl, Or.inl ⟨hsecond, hs.delim⟩⟩
  | copy hnone => exact ⟨rfl, Or.inl ⟨hlt hle (processRedirection_none hnone), hs.delim⟩⟩
  | redirect hsome => exact ⟨rfl, Or.inr (by simp)⟩

theorem scanLoop_redirects (hk : line.get k = '<' ∨ line.get k = '>') (hlast : k + 1 < line.strlen) :
    ∀ {fuel : Nat} {s : Scan}, Ahead k s → scanLoop pid exitStatus line fuel s = some r →
    r.redirections ≠ [] := by
  intro fuel
  induction fuel with
  | zero =>
      intro s _ h
      simp [scanLoop] at h
  | succ fuel ih =>
      intro s hs h
      have hbefore := hs.before
      rw [scanLoop, if_pos (by omega)] at h
      obtain ⟨⟨left, s'⟩, hbody, hrest⟩ := Option.bind_eq_some_iff.mp h
      obtain ⟨rfl, hahead⟩ := (scanBody_iteration hbody).ahead hk hlast hs
      rcases hahead with hahead | hredirected
      · exact ih hahead hrest
      · intro hnil
        have hkept := scanLoop_redirections hrest
        rw [hnil, List.prefix_nil] at hkept
        exact hredirected hkept

/-- **A `<` or `>` in front of the last character is a redirection, in quotes or not.** -/
theorem reads_redirects {argv : List CString} {redirections : List Redirection}
    (hk : line.get k = '<' ∨ line.get k = '>') (hlast : k + 1 < line.strlen)
    (h : Reads pid exitStatus line (argv, redirections)) : redirections ≠ [] := by
  obtain ⟨enough, hreads⟩ := h
  obtain ⟨i, hskip, hrest⟩ := Option.bind_eq_some_iff.mp (hreads enough (le_refl _))
  obtain ⟨r, hloop, heq⟩ := Option.map_eq_some_iff.mp hrest
  have hblank : isBlank (line.get k) = false := by
    rcases hk with hk | hk <;> rw [hk] <;> rfl
  cases heq
  exact scanLoop_redirects hk hlast ⟨skipBlanks_le hblank (Nat.zero_le k) hskip, Or.inl rfl⟩ hloop

/-! ### Pipes are not protected -/

/-- **A line with a `|` is several commands**, wherever the `|` stands. -/
theorem split_of_pipe {cmds : List Line} {async : Bool} (hfront : line.text = [] → front 0 ≠ '&')
    (hpipe : '|' ∈ (cutAsync line.text).1) (h : split line front fuel = some (cmds, async)) :
    2 ≤ cmds.length := by
  obtain ⟨-, hchecked⟩ := checkAsync_eq hfront
  have hnul : '\x00' ∉ (cutAsync line.text).1 :=
    fun hmem => line.noNul ((cutAsync_isPrefix line.text).subset hmem)
  obtain ⟨first, rest, hcut, hfirst⟩ := List.eq_append_cons_of_mem hpipe
  have hholds := hchecked.holds
  have hfits := hchecked.fits
  rw [hcut] at hholds hnul hfits
  rw [List.length_append, List.length_cons] at hfits
  rw [List.append_assoc, List.cons_append] at hholds
  unfold split at h
  dsimp only at h
  obtain ⟨⟨mem', ps⟩, hloop, heq⟩ := Option.map_eq_some_iff.mp h
  cases heq
  cases fuel with
  | zero => simp [splitLoop] at hloop
  | succ fuel =>
      have hnulFirst : '\x00' ∉ first := fun hmem => hnul (by simp [hmem])
      have hfound := hholds.strchr_eq_some hnulFirst hfirst
        (show first.length < line.strlen + 1 by omega)
      rw [splitLoop, if_pos (by decide), hfound] at hloop
      obtain ⟨tmp, -, hrest⟩ := Option.bind_eq_some_iff.mp hloop
      rw [splitLoop_eq_filter] at hrest
      have hlength := splitLoop_length (Option.eq_some_of_filter_eq_some hrest)
      rw [List.length_map]
      exact hlength

/-! ### A string in single quotes -/

theorem execInternalCmd_ne_launch (cmd : CString) (cmds : List Line) (async : Bool) :
    execInternalCmd cmd ≠ some (.launch cmds async) := by
  unfold execInternalCmd
  split
  · simp
  · split
    · simp
    · split
      · simp
      · split_ifs <;> simp

theorem actionFor_launch {cmds : List Line} {cmd : Line} {async async' : Bool}
    (h : actionFor cmds async = .launch [cmd] async') :
    cmds = [cmd] ∧ execInternalCmd cmd.text = none := by
  unfold actionFor at h
  split at h
  · rename_i cmd'
    cases hinternal : execInternalCmd cmd'.text with
    | some action =>
        rw [hinternal, Option.getD_some] at h
        rw [h] at hinternal
        exact absurd hinternal (execInternalCmd_ne_launch _ _ _)
    | none =>
        rw [hinternal, Option.getD_none] at h
        cases h
        exact ⟨rfl, hinternal⟩
  · rename_i hsingle
    cases h
    exact absurd rfl (hsingle cmd)

/-- `exec_job` starts one process, which calls `execvpe` with this `argv` and has performed no
redirection. -/
def RunsAlone (pid exitStatus : Int) (line : Line) (front : Nat → Char) (argv : List CString) :
    Prop :=
  ∃ cmd async, Dispatches line front (.launch [cmd] async) ∧ Reads pid exitStatus cmd (argv, [])

/-- A word, a space, and a string in single quotes. -/
def quotedText (c w : CString) : CString := c ++ ' ' :: '\'' :: (w ++ ['\''])

/-- The words that `exec_internal_cmd` knows, when something follows them. -/
def internalWords : List CString := ["cd".toList, "bg".toList, "fg".toList]

theorem strtok_quoted {c : CString} (hc : Bare c) (w : CString) :
    ∃ args, strtok (quotedText c w) = c :: args := by
  have hspace : ' ' ∉ c := fun hmem => absurd (hc.notBlank ' ' hmem) (by decide)
  exact ⟨_, strtok_word hc.1 hspace _⟩

theorem execInternalCmd_quoted {c w : CString} (hc : Bare c) :
    execInternalCmd (quotedText c w) = none ↔ c ∉ internalWords := by
  have hquote : '\'' ∈ quotedText c w := by simp [quotedText]
  have hother : ∀ cmd : CString, '\'' ∉ cmd → quotedText c w ≠ cmd := by
    rintro cmd hnone rfl
    exact hnone hquote
  obtain ⟨args, hwords⟩ := strtok_quoted hc w
  unfold execInternalCmd
  rw [if_neg (not_or.mpr ⟨hother _ (by decide), hother _ (by decide)⟩),
    if_neg (hother _ (by decide)), hwords]
  dsimp only
  unfold internalWords
  simp only [List.mem_cons, List.not_mem_nil, or_false, not_or]
  split_ifs with hcd hbg hfg
  · exact iff_of_false (by simp) (fun h => h.1 hcd)
  · exact iff_of_false (by simp) (fun h => h.2.1 hbg)
  · exact iff_of_false (by simp) (fun h => h.2.2 hfg)
  · exact iff_of_true rfl ⟨hcd, hbg, hfg⟩

/-- There is no `&` at the end. -/
theorem cutAsync_quoted (c w : CString) :
    cutAsync (quotedText c w) = (quotedText c w, false) := by
  have htext : quotedText c w = (c ++ ' ' :: '\'' :: w) ++ ['\''] := by simp [quotedText]
  refine cutAsync_of_not ?_
  have hcore : core (quotedText c w) = quotedText c w := by
    rw [htext]
    exact List.rdropWhile_concat_neg isBlank _ _ (by decide)
  rw [hcore, htext, List.getLast?_concat]
  decide

theorem quotedText_ne_nil (c w : CString) : quotedText c w ≠ [] := by simp [quotedText]

/-- Without a `|` the line is one command. -/
theorem quoted_dispatches {c w : CString} (hc : Bare c) (hpipe : '|' ∉ w)
    (htext : line.text = quotedText c w) :
    ∃ cmd, cmd.text = quotedText c w ∧ Dispatches line front (actionFor [cmd] false) := by
  have hnone : '|' ∉ quotedText c w := by
    have hword : '|' ∉ c := fun hmem => absurd (hc.2 '|' hmem) (by decide)
    simp [quotedText, hword, hpipe]
  have hfront : line.text = [] → front 0 ≠ '&' :=
    fun hnil => absurd (htext.symm.trans hnil) (quotedText_ne_nil c w)
  have hpieces : pieces (cutAsync line.text).1 = [quotedText c w] := by
    rw [htext, cutAsync_quoted, pieces_of_notMem hnone]
  have hfew : (pieces (cutAsync line.text).1).length ≤ maxPipe := by
    rw [hpieces, List.length_singleton]
    decide
  obtain ⟨cmds, hsplits, htexts, -⟩ := splits_pieces hfront hfew
  rw [hpieces] at htexts
  rw [htext, cutAsync_quoted] at hsplits
  obtain ⟨cmd, rfl, hcmd⟩ := List.map_eq_singleton_iff.mp htexts
  exact ⟨cmd, hcmd, hsplits.dispatches⟩

/-- Without a `<` or `>` the command is read as it should be. -/
theorem quoted_reads {c w : CString} {cmd : Line} (hc : Bare c) (hw : '\'' ∉ w) (hinput : '<' ∉ w)
    (houtput : '>' ∉ w) (htext : cmd.text = quotedText c w) :
    Reads pid exitStatus cmd ([c, w], []) := by
  have hread : Items.Readable [(.word c, [' ']), (.quoted '\'' w, [])] :=
    ⟨hc, by decide, by simp, ⟨Or.inl rfl, hw, hinput, houtput, Or.inl rfl⟩, by decide⟩
  refine reads_outcome (show Blanks [] by decide) hread ?_ (fun hne => absurd rfl hne)
  rw [htext]
  simp [quotedText, Items.text, Item.text]

theorem quoted_redirects {c w : CString} {cmd : Line} {argv : List CString}
    {redirections : List Redirection} {d : Char} (hd : d = '<' ∨ d = '>') (hmem : d ∈ w)
    (htext : cmd.text = quotedText c w) (h : Reads pid exitStatus cmd (argv, redirections)) :
    redirections ≠ [] := by
  obtain ⟨before, behind, rfl⟩ := List.append_of_mem hmem
  have hat : cmd.At (c ++ ' ' :: '\'' :: before).length (d :: (behind ++ ['\''])) := by
    refine ⟨c ++ ' ' :: '\'' :: before, ?_, rfl⟩
    rw [htext]
    simp [quotedText]
  have hstrlen := hat.strlen
  have hget : cmd.get (c ++ ' ' :: '\'' :: before).length = d := hat.get
  simp only [List.length_cons, List.length_append, List.length_nil] at hstrlen hget
  refine reads_redirects (k := c.length + (before.length + 1 + 1)) ?_ (by omega) h
  rw [hget]
  exact hd

theorem RunsAlone.noPipe {c w : CString} {argv : List CString} (htext : line.text = quotedText c w)
    (h : RunsAlone pid exitStatus line front argv) : '|' ∉ w := by
  intro hmem
  obtain ⟨cmd, async, ⟨enough, hdispatch⟩, -⟩ := h
  obtain ⟨⟨cmds, async'⟩, hsplit, haction⟩ :=
    Option.map_eq_some_iff.mp (hdispatch enough (le_refl _))
  obtain ⟨rfl, -⟩ := actionFor_launch haction
  have hfront : line.text = [] → front 0 ≠ '&' :=
    fun hnil => absurd (htext.symm.trans hnil) (quotedText_ne_nil c w)
  have hpipe : '|' ∈ (cutAsync line.text).1 := by
    rw [htext, cutAsync_quoted]
    simp [quotedText, hmem]
  have hlength := split_of_pipe hfront hpipe hsplit
  simp at hlength

/-- The one process reads the whole line, and its first word is none of the built-ins. -/
theorem RunsAlone.command {c w : CString} {argv : List CString} (hc : Bare c)
    (htext : line.text = quotedText c w) (h : RunsAlone pid exitStatus line front argv) :
    ∃ cmd, cmd.text = quotedText c w ∧ c ∉ internalWords ∧
      Reads pid exitStatus cmd (argv, []) := by
  have hpipe := h.noPipe htext
  obtain ⟨cmd, async, hdispatch, hreads⟩ := h
  obtain ⟨cmd', hcmd', hdispatch'⟩ := quoted_dispatches hc hpipe htext
  obtain ⟨hsame, hinternal⟩ := actionFor_launch (hdispatch'.unique hdispatch)
  obtain rfl : cmd' = cmd := (List.cons.inj hsame).1
  rw [hcmd', execInternalCmd_quoted hc] at hinternal
  exact ⟨cmd', hcmd', hinternal, hreads⟩

/--
**When single quotes make a string an argument.**  The line is run as one process with the
word and the string as its arguments, and without a redirection, exactly when the string has
no `|`, `<` or `>` and the word is none of the built-ins that take arguments.  Blanks, `$`, `&`
and double quotes do no harm.
-/
theorem quoted_alone_iff {c w : CString} (hc : Bare c) (hw : '\'' ∉ w)
    (htext : line.text = quotedText c w) :
    RunsAlone pid exitStatus line front [c, w] ↔
      ('|' ∉ w ∧ '<' ∉ w ∧ '>' ∉ w) ∧ c ∉ internalWords := by
  constructor
  · intro h
    obtain ⟨cmd, hcmd, hword, hreads⟩ := h.command hc htext
    refine ⟨⟨h.noPipe htext, fun hmem => ?_, fun hmem => ?_⟩, hword⟩
    · exact quoted_redirects (Or.inl rfl) hmem hcmd hreads rfl
    · exact quoted_redirects (Or.inr rfl) hmem hcmd hreads rfl
  · rintro ⟨⟨hpipe, hinput, houtput⟩, hword⟩
    obtain ⟨cmd, hcmd, hdispatch⟩ := quoted_dispatches hc hpipe htext
    have haction : actionFor [cmd] false = .launch [cmd] false := by
      show (execInternalCmd cmd.text).getD _ = _
      rw [hcmd, (execInternalCmd_quoted hc).mpr hword]
      rfl
    rw [haction] at hdispatch
    exact ⟨cmd, false, hdispatch, quoted_reads hc hw hinput houtput hcmd⟩

def echoQuoted (w : CString) (h : '\x00' ∉ w) : Line where
  text := quotedText "echo".toList w
  noNul := by simp [quotedText, h]
  rest _ := '\x00'

/-- `echo '$? & "x"'`. -/
theorem quoted_alone_echo : Bare "echo".toList ∧
    RunsAlone 13 0 (echoQuoted "$? & \"x\"".toList (by decide)) (fun _ => '\x00')
      ["echo".toList, "$? & \"x\"".toList] := by
  have hecho : Bare "echo".toList := by decide
  exact ⟨hecho, (quoted_alone_iff hecho (by decide) rfl).mpr ⟨by decide, by decide⟩⟩

/-- `echo 'a>b'` writes to the file `b'`. -/
theorem quoted_fails_at_output : Bare "echo".toList ∧
    processCmd 13 0 (echoQuoted "a>b".toList (by decide)) 16
      = some (["echo".toList], [.output "b'".toList false]) ∧
    ¬RunsAlone 13 0 (echoQuoted "a>b".toList (by decide)) (fun _ => '\x00')
      ["echo".toList, "a>b".toList] := by
  have hecho : Bare "echo".toList := by decide
  refine ⟨hecho, by decide, fun h => ?_⟩
  obtain ⟨cmd, hcmd, -, hreads⟩ := h.command hecho rfl
  exact quoted_redirects (Or.inr rfl) (by decide) hcmd hreads rfl

end Shell
