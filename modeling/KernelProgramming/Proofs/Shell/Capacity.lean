/-
Do the arrays of the shell suffice?

The sizes are constants, and nothing checks them.  A command fits when its arguments, their
number and the paths of its redirections do (`Roomy`), and what an argument needs can be
read off the elements of the command: a byte for every character, the digits of `$$` and
`$?`, and the terminator.  The number of commands on the line must fit as well.

But a command that is alone is copied by `exec_internal_cmd`, into an array that has no
place for the terminator.  So only lines with a `|` can be right (`storesInside_iff`).
-/
import KernelProgramming.Proofs.Shell.Inside

namespace Shell

open Traced

variable {pid exitStatus : Int} {line : Line} {fuel i j n : Nat}

/-! ### What a command needs -/

/-- The bytes of the argument up to the last one that the element writes. -/
def Element.bytes (pid exitStatus : Int) (j : Nat) : Element → Nat
  | .ends | .char => j + 1
  | .mark c _ => j + (markText pid exitStatus c).length + 1
  | .last copied => if copied then j + 2 else j + 1
  | _ => 0

/-- The path of a redirection. -/
def Element.path? : Element → Option CString
  | .redirect path | .runsOut path => some path
  | _ => none

/-- The bytes that the arguments need, as the scan goes on. -/
def argBytes (pid exitStatus : Int) : Nat → List Element → List Nat
  | _, [] => []
  | j, e :: es =>
      e.bytes pid exitStatus j :: argBytes pid exitStatus (e.argLength pid exitStatus j) es

/-- There is room for the arguments, for their addresses with the null pointer, and for the
paths. -/
structure Roomy (pid exitStatus : Int) (text : CString) : Prop where
  args : ∀ b ∈ argBytes pid exitStatus 0 (commandElements text), b ≤ maxArgLen
  argv : argCount 0 (commandElements text) < maxArgc
  paths : ∀ path ∈ (commandElements text).filterMap (·.path?), path.length < pathMax

/-! ### One element -/

theorem le_argCount (e : Element) (n : Nat) : n ≤ e.argCount n := by
  unfold Element.argCount
  split
  · exact Nat.le_succ n
  · exact Nat.le_succ n
  · split
    · exact Nat.le_succ n
    · exact le_refl _
  · exact le_refl _

theorem le_argCount_list (es : List Element) : ∀ n, n ≤ argCount n es := by
  induction es with
  | nil =>
      intro n
      exact le_refl _
  | cons e es ih =>
      intro n
      exact (le_argCount e n).trans (ih (e.argCount n))

theorem range_arg_inside_iff (j len : Nat) :
    (∀ a ∈ (List.range (len + 1)).map fun k => Access.arg (j + k), a.Inside) ↔
      j + len < maxArgLen := by
  simp only [List.forall_mem_map, List.mem_range, Access.Inside]
  constructor
  · intro hall
    exact hall len (Nat.lt_succ_self len)
  · intro hlast k hk
    omega

theorem range_path_inside_iff (len : Nat) :
    (∀ a ∈ (List.range (len + 1)).map Access.path, a.Inside) ↔ len < pathMax := by
  simp only [List.forall_mem_map, List.mem_range, Access.Inside]
  constructor
  · intro hall
    exact hall len (Nat.lt_succ_self len)
  · intro hlast k hk
    omega

/-- **What an element stores is inside** when the argument, the number of arguments and the path
are small enough. -/
theorem Element.stores_inside_iff (e : Element) (hn : n ≤ maxArgc) :
    (∀ a ∈ e.stores pid exitStatus j n, a.Inside) ↔
      e.bytes pid exitStatus j ≤ maxArgLen ∧ e.argCount n ≤ maxArgc ∧
        ∀ path, e.path? = some path → path.length < pathMax := by
  cases e with
  | ends =>
      simp only [Element.stores, Element.bytes, Element.argCount, Element.path?, Access.Inside,
        List.forall_mem_cons, List.not_mem_nil, reduceCtorEq, false_imp_iff, implies_true, and_true]
      omega
  | opens =>
      simp only [Element.stores, Element.bytes, Element.argCount, Element.path?, List.not_mem_nil,
        reduceCtorEq, false_imp_iff, implies_true, and_true]
      exact iff_of_true trivial ⟨Nat.zero_le _, hn⟩
  | mark c final =>
      cases final with
      | true =>
          simp only [Element.stores, Element.bytes, Element.argCount, Element.path?, if_true,
            List.forall_mem_append, range_arg_inside_iff, List.forall_mem_cons, List.not_mem_nil,
            reduceCtorEq, false_imp_iff, implies_true, and_true]
          simp only [Access.Inside]
          omega
      | false =>
          simp only [Element.stores, Element.bytes, Element.argCount, Element.path?,
            Bool.false_eq_true, if_false, List.append_nil, range_arg_inside_iff, reduceCtorEq,
            false_imp_iff, implies_true, and_true]
          omega
  | char =>
      simp only [Element.stores, Element.bytes, Element.argCount, Element.path?, Access.Inside,
        List.forall_mem_singleton, reduceCtorEq, false_imp_iff, implies_true, and_true]
      omega
  | redirect path =>
      simp only [Element.stores, Element.bytes, Element.argCount, Element.path?,
        range_path_inside_iff, Option.some.injEq, forall_eq']
      omega
  | runsOut path =>
      simp only [Element.stores, Element.bytes, Element.argCount, Element.path?,
        range_path_inside_iff, Option.some.injEq, forall_eq']
      omega
  | last copied =>
      cases copied with
      | true =>
          simp only [Element.stores, Element.bytes, Element.argCount, Element.path?, Access.Inside,
            if_true, List.forall_mem_cons, List.not_mem_nil, reduceCtorEq, false_imp_iff,
            implies_true, and_true]
          omega
      | false =>
          simp only [Element.stores, Element.bytes, Element.argCount, Element.path?, Access.Inside,
            Bool.false_eq_true, if_false, List.forall_mem_cons, List.not_mem_nil, reduceCtorEq,
            false_imp_iff, implies_true, and_true]
          omega

/-! ### One command -/

theorem stores_inside_iff : ∀ (es : List Element) (j n : Nat), n ≤ maxArgc →
    ((∀ a ∈ stores pid exitStatus j n es, a.Inside) ↔
      (∀ b ∈ argBytes pid exitStatus j es, b ≤ maxArgLen) ∧ argCount n es ≤ maxArgc ∧
        ∀ path ∈ es.filterMap (·.path?), path.length < pathMax) := by
  intro es
  induction es with
  | nil =>
      intro j n hn
      refine iff_of_true ?_ ⟨?_, hn, ?_⟩
      · exact fun _ ha => absurd ha List.not_mem_nil
      · exact fun _ hb => absurd hb List.not_mem_nil
      · exact fun _ hpath => absurd hpath List.not_mem_nil
  | cons e es ih =>
      intro j n hn
      have hle : e.argCount n ≤ argCount n (e :: es) := le_argCount_list es _
      have hpaths : (∀ path ∈ (e :: es).filterMap (·.path?), path.length < pathMax) ↔
          (∀ path, e.path? = some path → path.length < pathMax) ∧
            ∀ path ∈ es.filterMap (·.path?), path.length < pathMax := by
        cases hpath : e.path? with
        | none =>
            rw [List.filterMap_cons_none hpath]
            simp
        | some path =>
            rw [List.filterMap_cons_some hpath, List.forall_mem_cons]
            simp
      rw [stores, argBytes, List.forall_mem_append, List.forall_mem_cons, hpaths,
        e.stores_inside_iff hn]
      constructor
      · rintro ⟨⟨hbytes, hcount, hpath⟩, hrest⟩
        obtain ⟨hargs, hcount', hrest⟩ := (ih _ _ hcount).mp hrest
        exact ⟨⟨hbytes, hargs⟩, hcount', hpath, hrest⟩
      · rintro ⟨⟨hbytes, hargs⟩, hcount', hpath, hrest⟩
        have hcount := hle.trans hcount'
        exact ⟨⟨hbytes, hcount, hpath⟩, (ih _ _ hcount).mpr ⟨hargs, hcount', hrest⟩⟩

theorem always_skipBlanks_inside : ∀ (fuel i : Nat),
    Always Access.Inside (Accessing.skipBlanks line fuel i) := by
  intro fuel
  induction fuel with
  | zero =>
      intro i
      exact always_stuck
  | succ fuel ih =>
      intro i
      rw [Accessing.skipBlanks, always_bind_of_result (Accessing.result_get line i), always_get]
      refine ⟨trivial, ?_⟩
      split
      · exact ih (i + 1)
      · exact always_pure _

theorem always_inside_iff : (∀ fuel, Always Access.Inside
      (Accessing.processCmd pid exitStatus line fuel)) ↔
    (∀ a ∈ stores pid exitStatus 0 0 (commandElements line.text), a.Inside) ∧
      ((∃ result, Reads pid exitStatus line result) →
        argCount 0 (commandElements line.text) < maxArgc) := by
  rw [always_processCmd_iff fun _ _ => trivial]
  refine and_congr_right fun _ => and_iff_right fun _ fuel => always_skipBlanks_inside fuel _

/-- A command for which there is room is read inside the arrays. -/
theorem Roomy.inside (h : Roomy pid exitStatus line.text) (fuel : Nat) :
    Always Access.Inside (Accessing.processCmd pid exitStatus line fuel) := by
  refine always_inside_iff.mpr ⟨?_, fun _ => h.argv⟩ fuel
  exact (stores_inside_iff _ 0 0 (Nat.zero_le _)).mpr ⟨h.args, h.argv.le, h.paths⟩

/-- And only such a command, if the scan ends. -/
theorem Roomy.of_inside (hbacked : line.Backed)
    (h : ∀ fuel, Always Access.Inside (Accessing.processCmd pid exitStatus line fuel)) :
    Roomy pid exitStatus line.text := by
  obtain ⟨hstores, hargv⟩ := always_inside_iff.mp h
  obtain ⟨hargs, -, hpaths⟩ := (stores_inside_iff _ 0 0 (Nat.zero_le _)).mp hstores
  exact ⟨hargs, hargv (reads_exists fun _ => hbacked), hpaths⟩

/-! ### The whole line -/

/-- Whatever stands around the line in memory, nothing is stored outside of the arrays. -/
def StoresInside (pids : Nat → Int) (exitStatus : Int) (line : Line) : Prop :=
  ∀ rest front fuel, ∀ a ∈ Accessing.execJob pids exitStatus { line with rest := rest } front fuel,
    a.Inside

/-- The line has a `|` and few enough of them, and there is room for each of its commands. -/
structure LineRoomy (pids : Nat → Int) (exitStatus : Int) (text : CString) : Prop where
  piped : '|' ∈ (cutAsync text).1
  few : (pieces (cutAsync text).1).length ≤ maxPipe
  roomy : ∀ k cmd, (pieces (cutAsync text).1)[k]? = some cmd → Roomy (pids k) exitStatus cmd

theorem pieces_length {cmd : CString} (h : '|' ∈ cmd) : 2 ≤ (pieces cmd).length := by
  obtain ⟨first, rest, rfl, hfirst⟩ := List.eq_append_cons_of_mem h
  rw [pieces_append_pipe hfirst, List.length_cons]
  have hpos := List.length_pos_of_ne_nil (pieces_ne_nil (rest.dropWhile isBlank))
  omega

variable {pids : Nat → Int} {front : Nat → Char}

theorem mem_children {cmds : List Line} {a : Access} :
    a ∈ Accessing.children pids exitStatus fuel cmds ↔ ∃ k cmd, cmds[k]? = some cmd ∧
      a ∈ (Accessing.processCmd (pids k) exitStatus cmd fuel).trace := by
  unfold Accessing.children
  rw [List.mem_flatMap]
  constructor
  · rintro ⟨⟨cmd, k⟩, hmem, ha⟩
    exact ⟨k, cmd, List.mk_mem_zipIdx_iff_getElem?.mp hmem, ha⟩
  · rintro ⟨k, cmd, hget, ha⟩
    exact ⟨(cmd, k), List.mk_mem_zipIdx_iff_getElem?.mpr hget, ha⟩

/-- Where the addresses of several commands are found, they are run. -/
theorem execJob_several {mem' : Int → Char} {ps : List Int} {es : List Access}
    (hloop : Accessing.splitLoop line.strlen fuel (checkAsync (line.memory front) line.strlen).1 [] 0
      = ⟨some (mem', ps), es⟩) (hmany : 2 ≤ ps.length) :
    Accessing.execJob pids exitStatus line front fuel
      = es ++ Accessing.children pids exitStatus fuel
          (ps.map fun p => lineAt mem' p (line.strlen + 1)) := by
  obtain ⟨p, q, ps, rfl⟩ : ∃ p q rest, ps = p :: q :: rest := by
    match ps, hmany with
    | p :: q :: rest, _ => exact ⟨p, q, rest, rfl⟩
  unfold Accessing.execJob
  simp only [hloop, List.map_cons]

/-- A command that is alone is copied. -/
theorem copyCmd_subset_execJob {mem' : Int → Char} {p : Int} {es : List Access}
    (hloop : Accessing.splitLoop line.strlen fuel (checkAsync (line.memory front) line.strlen).1 [] 0
      = ⟨some (mem', [p]), es⟩) :
    Accessing.copyCmd (lineAt mem' p (line.strlen + 1))
      ⊆ Accessing.execJob pids exitStatus line front fuel := by
  unfold Accessing.execJob
  simp only [hloop, List.map_cons, List.map_nil]
  exact fun a ha => List.mem_append_right _ (List.mem_append_left _ ha)

/-- There is no place for the terminator. -/
theorem not_copyCmd_inside (cmd : Line) : ¬∀ a ∈ Accessing.copyCmd cmd, a.Inside := by
  intro hall
  have hlast : Access.cmd cmd.strlen cmd.strlen ∈ Accessing.copyCmd cmd :=
    List.mem_map.mpr ⟨cmd.strlen, List.mem_range.mpr (Nat.lt_succ_self _), rfl⟩
  exact Nat.lt_irrefl _ (hall _ hlast)

theorem getElem?_texts {cmds : List Line} {texts : List CString} (h : cmds.map (·.text) = texts)
    {k : Nat} {text : CString} :
    texts[k]? = some text ↔ ∃ cmd, cmds[k]? = some cmd ∧ cmd.text = text := by
  rw [← h, List.getElem?_map, Option.map_eq_some_iff]

theorem LineRoomy.inside (h : LineRoomy pids exitStatus line.text) (front : Nat → Char)
    (fuel : Nat) : ∀ a ∈ Accessing.execJob pids exitStatus line front fuel, a.Inside := by
  have hfront : line.text = [] → front 0 ≠ '&' := by
    intro hnil
    have hpipe := (cutAsync_isPrefix line.text).subset h.piped
    rw [hnil] at hpipe
    exact absurd hpipe List.not_mem_nil
  obtain ⟨enough, mem', ps, hloop, htexts, -⟩ := splitLoop_line hfront
  have hmany : 2 ≤ ps.length := by
    have hlength := congrArg List.length htexts
    rw [List.length_map, List.length_map] at hlength
    rw [hlength]
    exact pieces_length h.piped
  have haddresses : ∀ e ∈ (List.range (pieces (cutAsync line.text).1).length).map Access.cmdlines,
      e.Inside := by
    simp only [List.forall_mem_map, List.mem_range]
    intro k hk
    exact Nat.lt_of_lt_of_le hk h.few
  have hgrows := Accessing.grows_splitLoop line.strlen (Nat.le_add_right fuel enough)
    (checkAsync (line.memory front) line.strlen).1 [] 0
  rw [hloop (fuel + enough) (by omega)] at hgrows
  intro a ha
  rcases hgrows with hfull | ⟨hnone, hfirst⟩
  · rw [execJob_several hfull hmany, List.mem_append] at ha
    rcases ha with ha | ha
    · exact haddresses a ha
    · obtain ⟨k, cmd, hget, hmem⟩ := mem_children.mp ha
      exact (h.roomy k _ ((getElem?_texts htexts).mpr ⟨cmd, hget, rfl⟩)).inside fuel a hmem
  · -- The loop was stopped, and no command has been run.
    unfold Accessing.execJob at ha
    simp only [hnone, List.append_nil] at ha
    exact haddresses a (hfirst.subset ha)

theorem LineRoomy.of_inside (hfront : line.text = [] → front 0 ≠ '&') (hbacked : line.Backed)
    (h : ∀ fuel, ∀ a ∈ Accessing.execJob pids exitStatus line front fuel, a.Inside) :
    LineRoomy pids exitStatus line.text := by
  obtain ⟨enough, mem', ps, hloop, htexts, hbackeds⟩ := splitLoop_line hfront
  have hlength : ps.length = (pieces (cutAsync line.text).1).length := by
    have hlength := congrArg List.length htexts
    rwa [List.length_map, List.length_map] at hlength
  have hpiped : '|' ∈ (cutAsync line.text).1 := by
    by_contra hnone
    rw [pieces_of_notMem hnone] at hlength
    obtain ⟨p, rfl⟩ := List.length_eq_one_iff.mp hlength
    refine not_copyCmd_inside (lineAt mem' p (line.strlen + 1)) fun a ha => h enough a ?_
    exact copyCmd_subset_execJob (hloop enough (le_refl _)) ha
  have hmany : 2 ≤ ps.length := by
    rw [hlength]
    exact pieces_length hpiped
  refine ⟨hpiped, ?_, ?_⟩
  · -- The last address that is stored is inside of the array.
    have hlast : Access.cmdlines (ps.length - 1) ∈
        Accessing.execJob pids exitStatus line front enough := by
      rw [execJob_several (hloop enough (le_refl _)) hmany, ← hlength]
      refine List.mem_append_left _ (List.mem_map.mpr ⟨_, List.mem_range.mpr ?_, rfl⟩)
      omega
    have hroom : ps.length - 1 < maxPipe := h enough _ hlast
    omega
  · intro k text hget
    obtain ⟨cmd, hcmd, rfl⟩ := (getElem?_texts htexts).mp hget
    refine Roomy.of_inside (hbackeds hbacked cmd (List.mem_of_getElem? hcmd)) ?_
    refine (always_iff_of_grows (fun _ _ hle => Accessing.grows_processCmd hle) enough).mpr ?_
    intro fuel hfuel a ha
    refine h fuel a ?_
    rw [execJob_several (hloop fuel hfuel) hmany]
    exact List.mem_append_right _ (mem_children.mpr ⟨k, cmd, hcmd, ha⟩)

/--
**When the arrays of the shell suffice.**  Nothing is stored outside of them exactly when the
line is a pipeline of at most 128 commands, each of which has at most 127 arguments, no
argument of more than 512 bytes with its terminator, and no path of more than 127 characters.
-/
theorem storesInside_iff (pids : Nat → Int) (exitStatus : Int) (line : Line) :
    StoresInside pids exitStatus line ↔ LineRoomy pids exitStatus line.text := by
  constructor
  · intro h
    -- With zeros around the line, the scan of every command ends.
    let zeros : Nat → Char := fun _ => '\x00'
    let line' : Line := { line with rest := zeros }
    have hfront : line'.text = [] → zeros 0 ≠ '&' := fun _ => show '\x00' ≠ '&' by decide
    have hbacked : line'.Backed := ⟨0, rfl⟩
    have hroomy : LineRoomy pids exitStatus line'.text :=
      LineRoomy.of_inside hfront hbacked (h zeros zeros)
    exact hroomy
  · intro h rest front fuel
    have hroomy : LineRoomy pids exitStatus ({ line with rest := rest } : Line).text := h
    exact hroomy.inside front fuel

example : LineRoomy (fun _ => 13) 0 "ls | echo $$".toList := by
  have hpieces : pieces (cutAsync "ls | echo $$".toList).1 = ["ls ".toList, "echo $$".toList] := by
    decide
  have hls : commandElements "ls ".toList = [.char, .char, .ends] := by
    simp [commandElements, elements, element, isDelim, isBlank, operator?]
  have hecho : commandElements "echo $$".toList
      = [.char, .char, .char, .char, .ends, .mark '$' true] := by
    simp [commandElements, elements, element, isDelim, isBlank, operator?]
  refine ⟨by decide, by decide, ?_⟩
  rw [hpieces]
  intro k cmd hcmd
  match k with
  | 0 =>
      cases hcmd
      exact ⟨by rw [hls]; decide, by rw [hls]; decide, by rw [hls]; decide⟩
  | 1 =>
      cases hcmd
      exact ⟨by rw [hecho]; decide, by rw [hecho]; decide, by rw [hecho]; decide⟩
  | k + 2 => cases hcmd

def lsLine : Line where
  text := "ls".toList
  noNul := by decide
  rest _ := '\x00'

/-- `ls` is accepted, and its copy needs three bytes where there are two. -/
theorem storesInside_fails_at_ls : (getCmdLine "ls\n".toList).1 = some lsLine.text ∧
    lsLine.text.length ≤ 1022 ∧ ¬StoresInside (fun _ => 13) 0 lsLine := by
  refine ⟨by decide, by decide, fun h => ?_⟩
  have hstore : Access.cmd 2 2 ∈
      Accessing.execJob (fun _ => 13) 0 lsLine (fun _ => '\x00') 8 := by decide
  exact absurd (h (fun _ => '\x00') (fun _ => '\x00') 8 _ hstore) (by simp [Access.Inside])

end Shell
