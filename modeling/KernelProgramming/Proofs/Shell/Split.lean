/-
What `exec_job` cuts a line into.

`pieces` says it on the string: the line is cut at every `|`, and the blanks behind a `|`
go.  `splitLoop_pieces` is the proof that the loop over the buffer comes to the same.  It
goes along the line, and what it carries is that the piece at `tmp` has its terminator
where the whole line had it.  The pieces that are finished lie in front of `tmp`, where
nothing is written any more.

With `cutAsync` for the `&` this gives all of the split (`splits_pieces`): commands joined
with pipes are taken apart again (`split_undoes_join`).
-/
import KernelProgramming.Lib.Tokens
import KernelProgramming.Shell.Access
import KernelProgramming.Proofs.Shell.Items
import KernelProgramming.Proofs.Shell.Lines

namespace Shell

open Memory Fuel Tokens

variable {line : Line} {front : Nat → Char} {mem : Int → Char}

/-! ### The string in memory -/

theorem Line.At.holds {i : Nat} {suf : CString} (h : line.At i suf) :
    Holds (line.memory front) i (suf ++ ['\x00']) := by
  induction suf generalizing i with
  | nil => exact ⟨h.get, trivial⟩
  | cons c suf ih => exact ⟨h.get, ih h.next⟩

theorem Line.memory_behind (line : Line) (front : Nat → Char) (k : Nat) :
    line.memory front (line.strlen + 1 + k) = line.rest k :=
  line.get_behind k

/-! ### The end of the line -/

theorem goBack_blank {i : Nat} (h : isBlank (mem (i + 1)) = true) :
    goBack mem (i + 2) = goBack mem (i + 1) := by
  rw [goBack, if_pos h]

theorem goBack_stop {i : Nat} (h : isBlank (mem i) = false) :
    goBack mem (i + 1) = (mem i, (i : Int)) := by
  cases i with
  | zero =>
      have hfirst : isBlank (mem 0) = false := h
      rw [goBack, hfirst]
      rfl
  | succ i =>
      have hlast : isBlank (mem (i + 1)) = false := h
      rw [goBack, hlast]
      rfl

/-- The blanks at the end are passed over. -/
theorem goBack_gap {c : Char} {cmd gap : CString} (hgap : Blanks gap)
    (h : Holds mem 0 (cmd ++ c :: gap)) :
    goBack mem (cmd.length + gap.length + 1) = goBack mem (cmd.length + 1) := by
  induction gap using List.reverseRecOn with
  | nil => rfl
  | append_singleton gap d ih =>
      have hd : mem ((cmd.length + gap.length : Nat) + 1) = d := by
        have hlast := Holds.head (s := cmd ++ c :: gap) (a := d) (t := []) (by simpa using h)
        rw [← hlast]
        congr 1
        simp
        omega
      have hblank : isBlank (mem ((cmd.length + gap.length : Nat) + 1)) = true := by
        rw [hd]
        exact hgap d (by simp)
      rw [List.length_append, List.length_singleton, ← Nat.add_assoc, goBack_blank hblank]
      refine ih (fun e he => hgap e (by simp [he])) ?_
      exact Holds.left (t := [d]) (by simpa using h)

/-- With nothing but blanks in the line, it is a blank that the loop ends with. -/
theorem goBack_blanks : ∀ {gap : CString}, Blanks gap → gap ≠ [] → Holds mem 0 gap →
    isBlank (goBack mem gap.length).1 = true := by
  intro gap hgap hne h
  obtain ⟨c, gap, rfl⟩ := List.exists_cons_of_ne_nil hne
  have hback : goBack mem (([] : CString).length + gap.length + 1) = goBack mem 1 :=
    goBack_gap hgap.tail h
  rw [List.length_nil, Nat.zero_add] at hback
  rw [List.length_cons, hback]
  show isBlank (mem 0) = true
  rw [h.1]
  exact hgap c (by simp)

/-- The buffer after the search for `&` holds what `cutAsync` leaves of the line, and the rest of
it is as before. -/
structure Checked (line : Line) (front : Nat → Char) (mem : Int → Char) : Prop where
  holds : Holds mem 0 ((cutAsync line.text).1 ++ ['\x00'])
  fits : (cutAsync line.text).1.length ≤ line.strlen
  behind : ∀ i : Int, line.strlen ≤ i → mem i = line.memory front i

/-- No `&` is found. -/
theorem checkAsync_not (hother : (goBack (line.memory front) line.strlen).1 ≠ '&')
    (hlast : (core line.text).getLast? ≠ some '&') :
    (checkAsync (line.memory front) line.strlen).2 = (cutAsync line.text).2 ∧
      Checked line front (checkAsync (line.memory front) line.strlen).1 := by
  have h : Holds (line.memory front) 0 (line.text ++ ['\x00']) := (Line.At.zero line).holds
  have hsame : checkAsync (line.memory front) line.strlen = (line.memory front, false) := by
    unfold checkAsync
    simp only
    rw [if_neg hother]
  have hcut := cutAsync_of_not hlast
  rw [hsame]
  refine ⟨by rw [hcut], ?_, ?_, fun i _ => rfl⟩
  · rw [hcut]
    exact h
  · rw [hcut]
    exact le_refl _

/-- A `&` is found, and overwritten. -/
theorem checkAsync_and {cmd : CString} (hcore : core line.text = cmd ++ ['&'])
    (hback : goBack (line.memory front) line.strlen = ('&', (cmd.length : Int))) :
    (checkAsync (line.memory front) line.strlen).2 = (cutAsync line.text).2 ∧
      Checked line front (checkAsync (line.memory front) line.strlen).1 := by
  have h : Holds (line.memory front) 0 (line.text ++ ['\x00']) := (Line.At.zero line).holds
  have hwrite : checkAsync (line.memory front) line.strlen
      = (Function.update (line.memory front) cmd.length '\x00', true) := by
    unfold checkAsync
    simp only
    rw [hback, if_pos rfl]
  have hcut := cutAsync_of_and hcore
  have hlength : cmd.length + 1 ≤ line.strlen := by
    have hle := (core_isPrefix line.text).length_le
    rwa [hcore, List.length_append, List.length_singleton] at hle
  rw [hwrite]
  refine ⟨by rw [hcut], ?_, ?_, ?_⟩
  · obtain ⟨gap, htext⟩ := core_isPrefix line.text
    rw [← htext, hcore, List.append_assoc, List.append_assoc] at h
    have hupdate := h.update_next '\x00'
    rw [Int.zero_add] at hupdate
    rw [hcut]
    exact hupdate
  · rw [hcut]
    dsimp only
    omega
  · intro i hi
    exact Function.update_of_ne (by omega) _ _

/-- **The search for `&` in the buffer is the one on the string.** -/
theorem checkAsync_eq (hfront : line.text = [] → front 0 ≠ '&') :
    (checkAsync (line.memory front) line.strlen).2 = (cutAsync line.text).2 ∧
      Checked line front (checkAsync (line.memory front) line.strlen).1 := by
  have h : Holds (line.memory front) 0 line.text := (Line.At.zero line).holds.left
  obtain ⟨gap, htext, hgap⟩ := core_append_blanks line.text
  rcases core_concat line.text with hnil | ⟨cmd, c, hcore, hc⟩
  · refine checkAsync_not ?_ (by simp [hnil])
    by_cases hempty : line.text = []
    · have hzero : line.strlen = 0 := by rw [Line.strlen, hempty, List.length_nil]
      rw [hzero]
      exact hfront hempty
    · have hblank := goBack_blanks ((core_eq_nil_iff _).mp hnil) hempty h
      intro hand
      rw [← Line.strlen, hand] at hblank
      exact absurd hblank (by decide)
  · rw [hcore, List.append_assoc, List.singleton_append] at htext
    rw [htext] at h
    have hat : line.memory front cmd.length = c := by
      have hhead := h.head
      rwa [Int.zero_add] at hhead
    have hstrlen : line.strlen = cmd.length + gap.length + 1 := by
      rw [Line.strlen, htext, List.length_append, List.length_cons]
      omega
    have hback : goBack (line.memory front) line.strlen = (c, (cmd.length : Int)) := by
      rw [hstrlen, goBack_gap hgap h, goBack_stop (by rw [hat]; exact hc), hat]
    by_cases hand : c = '&'
    · subst hand
      exact checkAsync_and hcore hback
    · refine checkAsync_not ?_ ?_
      · rw [hback]
        exact hand
      · rw [hcore, List.getLast?_concat]
        simpa using hand

/-! ### The pipes -/

/-- The commands of a pipeline: the line is cut at every `|`, and the blanks behind it go. -/
def pieces (cmd : CString) : List CString :=
  match cmd.splitOn '|' with
  | [] => []
  | first :: rest => first :: rest.map (·.dropWhile isBlank)

theorem pieces_of_notMem {cmd : CString} (h : '|' ∉ cmd) : pieces cmd = [cmd] := by
  have hsplit : cmd.splitOn '|' = [cmd] := by
    rw [List.splitOn_eq_splitOnP]
    refine List.splitOnP_eq_singleton fun c hc => ?_
    have hne : c ≠ '|' := by
      rintro rfl
      exact h hc
    simpa using hne
  unfold pieces
  rw [hsplit]
  rfl

theorem splitOn_dropWhile (cmd : CString) :
    ∃ first rest, cmd.splitOn '|' = first :: rest ∧
      (cmd.dropWhile isBlank).splitOn '|' = first.dropWhile isBlank :: rest := by
  induction cmd with
  | nil => exact ⟨[], [], rfl, rfl⟩
  | cons c cmd ih =>
      obtain ⟨first, rest, hsplit, hdrop⟩ := ih
      cases hblank : isBlank c with
      | true =>
          have hne : c ≠ '|' := by
            rintro rfl
            simp [isBlank] at hblank
          refine ⟨c :: first, rest, ?_, ?_⟩
          · rw [List.splitOn_cons_eq_if_modifyHead, if_neg (by simpa using hne), hsplit]
            rfl
          · rw [List.dropWhile_cons_of_pos hblank, List.dropWhile_cons_of_pos hblank]
            exact hdrop
      | false =>
          rw [List.dropWhile_cons_of_neg (by simp [hblank]), List.splitOn_cons_eq_if_modifyHead]
          split
          · exact ⟨[], _, rfl, rfl⟩
          · refine ⟨c :: first, rest, ?_, ?_⟩
            · rw [hsplit]
              rfl
            · rw [hsplit, List.dropWhile_cons_of_neg (by simp [hblank])]
              rfl

theorem pieces_append_pipe {cmd : CString} (h : '|' ∉ cmd) (rest : CString) :
    pieces (cmd ++ '|' :: rest) = cmd :: pieces (rest.dropWhile isBlank) := by
  obtain ⟨first, later, hsplit, hdrop⟩ := splitOn_dropWhile rest
  have hcut : (cmd ++ '|' :: rest).splitOn '|' = cmd :: rest.splitOn '|' := by
    rw [List.splitOn_eq_splitOnP, List.splitOn_eq_splitOnP]
    refine List.splitOnP_append_cons_of_forall_mem (fun c hc => ?_) _ (by simp) _
    have hne : c ≠ '|' := by
      rintro rfl
      exact h hc
    simpa using hne
  unfold pieces
  rw [hcut, hsplit, hdrop]
  rfl

theorem pieces_ne_nil (cmd : CString) : pieces cmd ≠ [] := by
  unfold pieces
  cases hsplit : cmd.splitOn '|' with
  | nil => exact absurd hsplit (List.splitOn_ne_nil '|' cmd)
  | cons first rest => simp

theorem skipSpaces_eq {gap suf : CString} {c : Char} (hgap : Blanks gap) (hc : isBlank c = false) :
    ∀ {p : Int} {fuel : Nat}, Holds mem p (gap ++ c :: suf) → gap.length < fuel →
    skipSpaces mem fuel p = some (p + gap.length) := by
  induction gap with
  | nil =>
      intro p fuel h hfuel
      obtain ⟨fuel, rfl⟩ := Nat.exists_eq_add_one_of_ne_zero (show fuel ≠ 0 by omega)
      rw [skipSpaces, h.1, hc, List.length_nil]
      simp
  | cons b gap ih =>
      intro p fuel h hfuel
      rw [List.length_cons] at hfuel
      obtain ⟨fuel, rfl⟩ := Nat.exists_eq_add_one_of_ne_zero (show fuel ≠ 0 by omega)
      rw [skipSpaces, h.1, hgap b (by simp), if_pos rfl,
        ih hgap.tail h.2 (by omega), List.length_cons]
      congr 1
      push_cast
      omega

/-- The string is a part of the buffer between `lo` and `hi`. -/
structure Placed (mem : Int → Char) (lo hi : Int) (p : Int) (cmd : CString) : Prop where
  holds : Holds mem p (cmd ++ ['\x00'])
  noNul : '\x00' ∉ cmd
  low : lo ≤ p
  high : p + cmd.length ≤ hi

theorem Placed.widen {lo lo' hi hi' p : Int} {cmd : CString} (h : Placed mem lo hi p cmd)
    (hlo : lo' ≤ lo) (hhi : hi ≤ hi') : Placed mem lo' hi' p cmd :=
  ⟨h.holds, h.noNul, Int.le_trans hlo h.low, Int.le_trans h.high hhi⟩

/-- Behind a `|` there are blanks, and then the next command. -/
theorem skipSpaces_next {rest : CString} {p : Int} (h : Holds mem p (rest ++ ['\x00'])) :
    ∃ gap, rest = gap ++ rest.dropWhile isBlank ∧
      (∀ fuel, gap.length < fuel → skipSpaces mem fuel p = some (p + gap.length)) ∧
      Holds mem (p + gap.length) (rest.dropWhile isBlank ++ ['\x00']) := by
  have hsplit : rest = rest.takeWhile isBlank ++ rest.dropWhile isBlank :=
    List.takeWhile_append_dropWhile.symm
  have hholds : Holds mem p
      (rest.takeWhile isBlank ++ (rest.dropWhile isBlank ++ ['\x00'])) := by
    rw [← List.append_assoc, ← hsplit]
    exact h
  refine ⟨rest.takeWhile isBlank, hsplit, fun fuel hfuel => ?_, hholds.right⟩
  have hstops := stops_dropWhile rest
  cases hdrop : rest.dropWhile isBlank with
  | nil =>
      rw [hdrop] at hholds
      exact skipSpaces_eq (blanks_takeWhile rest) rfl hholds hfuel
  | cons c suf =>
      rw [hdrop] at hholds hstops
      exact skipSpaces_eq (blanks_takeWhile rest) hstops hholds hfuel

theorem result_splitLoop_succ (n fuel : Nat) (mem : Int → Char) (cmdlines : List Int) (tmp : Int) :
    (Accessing.splitLoop n (fuel + 1) mem cmdlines tmp).result
      = match strchr '\x00' '|' mem tmp (n + 1) with
        | none => some (mem, cmdlines ++ [tmp])
        | some p =>
            (skipSpaces (Function.update mem p '\x00') (fuel + 1) (p + 1)).bind fun tmp' =>
              (Accessing.splitLoop n fuel (Function.update mem p '\x00') (cmdlines ++ [tmp])
                tmp').result := by
  rw [Accessing.splitLoop, Traced.result_bind, Traced.result_emit, Option.bind_some]
  cases strchr '\x00' '|' mem tmp (n + 1) with
  | none => rfl
  | some p =>
      dsimp only
      cases skipSpaces (Function.update mem p '\x00') (fuel + 1) (p + 1) with
      | none => rfl
      | some tmp' => rfl

theorem splitLoop_length {n : Nat} {r : (Int → Char) × List Int} : ∀ {fuel : Nat}
    {mem : Int → Char} {cmdlines : List Int} {tmp : Int},
    (Accessing.splitLoop n fuel mem cmdlines tmp).result = some r →
    cmdlines.length < r.2.length := by
  intro fuel
  induction fuel with
  | zero =>
      intro mem cmdlines tmp h
      exact absurd h (by simp [Accessing.splitLoop, Traced.stuck])
  | succ fuel ih =>
      intro mem cmdlines tmp h
      rw [result_splitLoop_succ] at h
      split at h
      · cases h
        simp
      · obtain ⟨tmp', -, hrest⟩ := Option.bind_eq_some_iff.mp h
        have hlength := ih hrest
        rw [List.length_append, List.length_singleton] at hlength
        omega

/-- The loop is the one without bounds, as long as there is room for its addresses. -/
theorem splitLoop_eq_filter (n : Nat) : ∀ (fuel : Nat) (mem : Int → Char) (cmdlines : List Int)
    (tmp : Int), splitLoop n fuel mem cmdlines tmp
      = (Accessing.splitLoop n fuel mem cmdlines tmp).result.filter (·.2.length ≤ maxPipe) := by
  intro fuel
  induction fuel with
  | zero =>
      intro mem cmdlines tmp
      rfl
  | succ fuel ih =>
      intro mem cmdlines tmp
      by_cases hroom : cmdlines.length < maxPipe
      · rw [splitLoop, if_pos hroom, result_splitLoop_succ]
        cases strchr '\x00' '|' mem tmp (n + 1) with
        | none =>
            refine (Option.filter_some_pos ?_).symm
            simp only [List.length_append, List.length_singleton, decide_eq_true_eq]
            omega
        | some p =>
            dsimp only
            cases skipSpaces (Function.update mem p '\x00') (fuel + 1) (p + 1) with
            | none => rfl
            | some tmp' => exact ih _ _ tmp'
      · rw [splitLoop, if_neg hroom]
        refine (Option.filter_eq_none_iff.mpr fun r hr => ?_).symm
        have hlength := splitLoop_length hr
        simp only [decide_eq_true_eq]
        omega

/-- The loop finds the next `|`, and goes on with what is behind it. -/
theorem splitLoop_step {n fuel : Nat} {cmd rest : CString} {tmp tmp' : Int} {cmdlines : List Int}
    (h : Holds mem tmp (cmd ++ '|' :: rest)) (hnul : '\x00' ∉ cmd) (hpipe : '|' ∉ cmd)
    (hn : cmd.length ≤ n)
    (hskip : skipSpaces (Function.update mem (tmp + cmd.length) '\x00') (fuel + 1)
      (tmp + cmd.length + 1) = some tmp') :
    Accessing.splitLoop n (fuel + 1) mem cmdlines tmp
      = (Traced.emit [.cmdlines cmdlines.length] >>= fun _ =>
          Accessing.splitLoop n fuel (Function.update mem (tmp + cmd.length) '\x00')
            (cmdlines ++ [tmp]) tmp') := by
  rw [Accessing.splitLoop, h.strchr_eq_some hnul hpipe (by omega)]
  simp only
  rw [hskip]

/-- **The loop over the pipes makes the pieces of the line.**  One address is stored for each of
them, and nothing is written outside of the line. -/
theorem splitLoop_pieces (n : Nat) : ∀ (m : Nat) {mem : Int → Char} {cmd : CString} {tmp : Int}
    {cmdlines : List Int}, cmd.length = m → m ≤ n → Holds mem tmp (cmd ++ ['\x00']) →
    '\x00' ∉ cmd →
    ∃ enough mem' ps, (∀ fuel, enough ≤ fuel → Accessing.splitLoop n fuel mem cmdlines tmp
        = ⟨some (mem', cmdlines ++ ps),
            (List.range' cmdlines.length (pieces cmd).length).map .cmdlines⟩) ∧
      List.Forall₂ (Placed mem' tmp (tmp + cmd.length)) ps (pieces cmd) ∧
      ∀ i, i < tmp ∨ tmp + cmd.length ≤ i → mem' i = mem i := by
  intro m
  induction m using Nat.strong_induction_on with
  | _ m ih =>
      intro mem cmd tmp cmdlines hm hle h hnul
      by_cases hpipe : '|' ∈ cmd
      · obtain ⟨first, rest, rfl, hfirst⟩ := List.eq_append_cons_of_mem hpipe
        have hsplit : first ++ '|' :: rest ++ ['\x00'] = first ++ '|' :: (rest ++ ['\x00']) := by
          simp
        rw [hsplit] at h
        have hnulFirst : '\x00' ∉ first := fun hmem => hnul (by simp [hmem])
        -- The terminator of the first piece is written, and the rest of the line is as it was.
        have hrest : Holds (Function.update mem (tmp + first.length) '\x00')
            (tmp + first.length + 1) (rest ++ ['\x00']) :=
          h.right.2.update (Or.inl (by omega)) _
        have hdone : Holds (Function.update mem (tmp + first.length) '\x00') tmp
            (first ++ ['\x00']) := h.update_next _
        obtain ⟨gap, hgap, hskip, hnext⟩ := skipSpaces_next hrest
        rw [pieces_append_pipe hfirst]
        generalize hcmd' : rest.dropWhile isBlank = cmd' at *
        subst hgap
        simp only [List.length_append, List.length_cons] at hm
        obtain ⟨enough, mem', ps, hloop, hplaced, hsame⟩ := ih cmd'.length (by omega) rfl (by omega)
          hnext (fun hmem => hnul (by simp [hmem]))
        refine ⟨enough + gap.length + 1, mem', tmp :: ps, fun fuel hfuel => ?_, ?_, ?_⟩
        · obtain ⟨fuel, rfl⟩ := Nat.exists_eq_add_one_of_ne_zero (show fuel ≠ 0 by omega)
          rw [splitLoop_step h hnulFirst hfirst (by omega)
            (hskip _ (by omega)), hloop fuel (by omega), List.append_assoc, List.singleton_append,
            List.length_append, List.length_singleton, List.length_cons, List.range'_succ,
            List.map_cons]
          rfl
        · refine List.Forall₂.cons ⟨?_, hnulFirst, Int.le_refl _, ?_⟩ ?_
          · refine hdone.congr fun i hlo hhi => hsame i (Or.inl ?_)
            simp only [List.length_append, List.length_singleton] at hhi
            push_cast at hhi
            omega
          · simp only [List.length_append, List.length_cons]
            push_cast
            omega
          · refine hplaced.imp fun p piece hpiece => hpiece.widen (by omega) ?_
            simp only [List.length_append, List.length_cons]
            push_cast
            omega
        · intro i hi
          simp only [List.length_append, List.length_cons] at hi
          push_cast at hi
          rw [hsame i (by omega)]
          exact Function.update_of_ne (by omega) _ _
      · refine ⟨1, mem, [tmp], fun fuel hfuel => ?_, ?_, fun i _ => rfl⟩
        · obtain ⟨fuel, rfl⟩ := Nat.exists_eq_add_one_of_ne_zero (show fuel ≠ 0 by omega)
          rw [Accessing.splitLoop, h.strchr_eq_none (by decide) hpipe,
            pieces_of_notMem hpipe]
          rfl
        · rw [pieces_of_notMem hpipe]
          exact List.Forall₂.cons ⟨h, hnul, Int.le_refl _, Int.le_refl _⟩ List.Forall₂.nil

/-! ### The whole split -/

/-- `exec_job` cuts the line into these commands. -/
def Splits (line : Line) (front : Nat → Char) (cmds : List Line) (async : Bool) : Prop :=
  Gives (split line front) (cmds, async)

theorem cutAsync_isPrefix (cmdline : CString) : (cutAsync cmdline).1 <+: cmdline := by
  unfold cutAsync
  simp only
  split
  · exact (List.dropLast_prefix _).trans (core_isPrefix cmdline)
  · exact List.prefix_rfl

theorem Placed.lineAt_text {lo hi p : Int} {cmd : CString} {n : Nat} (h : Placed mem lo hi p cmd)
    (hn : hi - lo ≤ n) : (lineAt mem p (n + 1)).text = cmd := by
  have hlow := h.low
  have hhigh := h.high
  exact h.holds.string_eq h.noNul (by omega)

/-- A command of the line stands in front of what stands behind the line. -/
theorem Placed.backed {hi p : Int} {cmd : CString} {n : Nat} (h : Placed mem 0 hi p cmd)
    (hn : hi ≤ line.strlen)
    (hbehind : ∀ i : Int, line.strlen ≤ i → mem i = line.memory front i)
    (htext : (lineAt mem p n).text = cmd) (hbacked : line.Backed) : (lineAt mem p n).Backed := by
  have hhigh := h.high
  obtain ⟨k, hk⟩ := hbacked
  -- The character `k` behind the line, counted from the end of this command.
  obtain ⟨d, hd⟩ := Int.eq_ofNat_of_zero_le (show 0 ≤ line.strlen - (p + cmd.length) by omega)
  refine ⟨d + k, ?_⟩
  have haddress : p + (lineAt mem p n).text.length + 1 + ((d + k : Nat) : Int)
      = line.strlen + 1 + k := by
    rw [htext]
    push_cast
    omega
  show isBlank (mem (p + (lineAt mem p n).text.length + 1 + ((d + k : Nat) : Int))) = false
  rw [haddress, hbehind _ (by omega), line.memory_behind]
  exact hk

/-- The loop on the line without its `&`.  Behind each of the commands there is a character other
than blanks if there is one behind the line. -/
theorem splitLoop_line (hfront : line.text = [] → front 0 ≠ '&') :
    ∃ enough mem' ps, (∀ fuel, enough ≤ fuel →
        Accessing.splitLoop line.strlen fuel (checkAsync (line.memory front) line.strlen).1 [] 0
          = ⟨some (mem', ps),
              (List.range (pieces (cutAsync line.text).1).length).map .cmdlines⟩) ∧
      (ps.map fun p => lineAt mem' p (line.strlen + 1)).map (·.text)
        = pieces (cutAsync line.text).1 ∧
      (line.Backed → ∀ cmd ∈ ps.map fun p => lineAt mem' p (line.strlen + 1), cmd.Backed) := by
  obtain ⟨-, hchecked⟩ := checkAsync_eq hfront
  have hnul : '\x00' ∉ (cutAsync line.text).1 :=
    fun hmem => line.noNul ((cutAsync_isPrefix line.text).subset hmem)
  obtain ⟨enough, mem', ps, hloop, hplaced, hsame⟩ := splitLoop_pieces line.strlen _ rfl
    hchecked.fits hchecked.holds hnul
  have hfits := hchecked.fits
  have htext : ∀ {p cmd}, Placed mem' 0 (0 + (cutAsync line.text).1.length) p cmd →
      (lineAt mem' p (line.strlen + 1)).text = cmd := fun h => h.lineAt_text (by omega)
  refine ⟨enough, mem', ps, fun fuel hfuel => ?_, ?_, ?_⟩
  · rw [hloop fuel hfuel, List.range_eq_range']
    rfl
  · rw [List.map_map, ← List.forall₂_eq_eq_eq, List.forall₂_map_left_iff]
    exact hplaced.imp fun p cmd h => htext h
  · intro hbacked cmd hcmd
    obtain ⟨p, hp, rfl⟩ := List.mem_map.mp hcmd
    obtain ⟨piece, -, hpiece⟩ := forall₂_right (List.Forall₂.flip hplaced) p hp
    have hbehind : ∀ i : Int, line.strlen ≤ i → mem' i = line.memory front i := by
      intro i hi
      rw [hsame i (by omega), hchecked.behind i hi]
    exact hpiece.backed (by omega) hbehind (htext hpiece) hbacked

/-- **The split.**  The commands are the pieces of the line without its `&`, and behind each of
them there is a character other than blanks if there is one behind the line. -/
theorem splits_pieces (hfront : line.text = [] → front 0 ≠ '&')
    (hfew : (pieces (cutAsync line.text).1).length ≤ maxPipe) :
    ∃ cmds, Splits line front cmds (cutAsync line.text).2 ∧
      cmds.map (·.text) = pieces (cutAsync line.text).1 ∧
      (line.Backed → ∀ cmd ∈ cmds, cmd.Backed) := by
  obtain ⟨hasync, -⟩ := checkAsync_eq hfront
  obtain ⟨enough, mem', ps, hloop, htexts, hbacked⟩ := splitLoop_line hfront
  have hroom : ps.length ≤ maxPipe := by
    have hlength := congrArg List.length htexts
    rw [List.length_map, List.length_map] at hlength
    omega
  refine ⟨_, ⟨enough, fun fuel hfuel => ?_⟩, htexts, hbacked⟩
  unfold split
  simp only
  rw [splitLoop_eq_filter, hloop fuel hfuel, Option.filter_some_pos (by simpa using hroom), hasync]
  rfl

/-! ### What is done -/

/-- `exec_job` does this. -/
def Dispatches (line : Line) (front : Nat → Char) (action : Action) : Prop :=
  Gives (dispatch line front) action

theorem Splits.dispatches {cmds : List Line} {async : Bool} (h : Splits line front cmds async) :
    Dispatches line front (actionFor cmds async) :=
  Gives.map h _

theorem strtok_eq_tokens (cmd : CString) : strtok cmd = tokens (· == ' ') cmd := by
  unfold strtok tokens
  rw [List.splitOn_eq_splitOnP]
  refine List.filter_congr fun t _ => ?_
  cases t <;> rfl

/-- There is no word between the spaces. -/
theorem strtok_eq_nil_iff (cmd : CString) : strtok cmd = [] ↔ ∀ c ∈ cmd, c = ' ' := by
  rw [strtok_eq_tokens, tokens_eq_nil_iff]
  simp only [beq_iff_eq]

/-- The word in front of a space. -/
theorem strtok_word {w : CString} (hne : w ≠ []) (hspace : ' ' ∉ w) (rest : CString) :
    strtok (w ++ ' ' :: rest) = w :: strtok rest := by
  have hw : ∀ c ∈ w, (c == ' ') = false := by
    intro c hc
    refine beq_eq_false_iff_ne.mpr ?_
    rintro rfl
    exact hspace hc
  rw [strtok_eq_tokens, strtok_eq_tokens, tokens_append_sep hne hw (beq_self_eq_true _)]

/-! ### Commands joined with pipes -/

theorem core_append_of_blanks (cmd : CString) {gap : CString} (h : Blanks gap) :
    core (cmd ++ gap) = core cmd := by
  have hrev := core_reverse (gap.reverse ++ cmd.reverse)
  have hgap : ∀ c ∈ gap.reverse, isBlank c = true := fun c hc => h c (List.mem_reverse.mp hc)
  rw [dropWhile_blanks hgap, ← core_reverse] at hrev
  simpa using hrev

theorem core_append_of_ne_nil (init : CString) {cmd : CString} (h : core cmd ≠ []) :
    core (init ++ cmd) = init ++ core cmd := by
  obtain ⟨gap, hcmd, hgap⟩ := core_append_blanks cmd
  obtain ⟨cmd', c, hcore, hc⟩ := (core_concat cmd).resolve_left h
  rw [hcmd, ← List.append_assoc, core_append_of_blanks _ hgap, ← hcmd, hcore, ← List.append_assoc]
  exact List.rdropWhile_concat_neg isBlank _ _ (by simp [hc])

theorem Blanks.notMem {gap : CString} (h : Blanks gap) {c : Char} (hc : isBlank c = false) :
    c ∉ gap := by
  intro hmem
  rw [h c hmem] at hc
  exact absurd hc (by decide)

/-- A command behind a `|`, with the blanks around the `|`. -/
structure Stage where
  before : CString
  behind : CString
  cmd : CString
  deriving DecidableEq, Repr

/-- A command that can be part of a pipeline. -/
structure Segment (cmd : CString) : Prop where
  nonempty : cmd ≠ []
  starts : Stops cmd
  noPipe : '|' ∉ cmd

/-- Commands joined with pipes. -/
def joinText (first : CString) : List Stage → CString
  | [] => first
  | stage :: rest =>
      first ++ (stage.before ++ '|' :: (stage.behind ++ joinText stage.cmd rest))

/-- A pipeline as it is written.  `ending` is the `&`, if there is one, with the blanks in front
of it and behind it. -/
structure Pipeline where
  first : CString
  rest : List Stage
  ending : Option (CString × CString)
  segments : ∀ cmd ∈ first :: rest.map (·.cmd), Segment cmd
  blanks : ∀ stage ∈ rest, Blanks stage.before ∧ Blanks stage.behind
  few : (first :: rest.map (·.cmd)).length ≤ 128
  last : (core ((first :: rest.map (·.cmd)).getLast (by simp))).getLast? ≠ some '&'
  endBlanks : ∀ gap gap', ending = some (gap, gap') → Blanks gap ∧ Blanks gap'

namespace Pipeline

def cmds (p : Pipeline) : List CString := p.first :: p.rest.map (·.cmd)

def endText : Option (CString × CString) → CString
  | none => []
  | some (gap, gap') => gap ++ '&' :: gap'

def text (p : Pipeline) : CString := joinText p.first p.rest ++ endText p.ending

end Pipeline

theorem Segment.core_ne_nil {cmd : CString} (h : Segment cmd) : core cmd ≠ [] := by
  obtain ⟨c, suf, rfl⟩ := List.exists_cons_of_ne_nil h.nonempty
  intro hnil
  have hblank := (core_eq_nil_iff _).mp hnil c (by simp)
  have hstops : isBlank c = false := h.starts
  rw [hstops] at hblank
  exact absurd hblank (by decide)

/-- The last command is at the end. -/
theorem joinText_last : ∀ (rest : List Stage) (first : CString),
    ∃ init, joinText first rest = init ++ (first :: rest.map (·.cmd)).getLast (by simp) := by
  intro rest
  induction rest with
  | nil =>
      intro first
      exact ⟨[], rfl⟩
  | cons stage rest ih =>
      intro first
      obtain ⟨init, hjoin⟩ := ih stage.cmd
      refine ⟨first ++ (stage.before ++ '|' :: (stage.behind ++ init)), ?_⟩
      rw [joinText, hjoin]
      simp

theorem joinText_starts {first : CString} (h : Segment first) (rest : List Stage) (gap : CString) :
    (joinText first rest ++ gap).dropWhile isBlank = joinText first rest ++ gap := by
  obtain ⟨c, suf, rfl⟩ := List.exists_cons_of_ne_nil h.nonempty
  have hc : isBlank c = false := h.starts
  cases rest with
  | nil => exact List.dropWhile_cons_of_neg (by simp [hc])
  | cons stage rest => exact List.dropWhile_cons_of_neg (by simp [hc])

/-- The pieces of joined commands are the commands, up to blanks at their end. -/
theorem pieces_joinText {gap : CString} (hgap : Blanks gap) : ∀ {rest : List Stage}
    {first : CString}, (∀ cmd ∈ first :: rest.map (·.cmd), Segment cmd) →
    (∀ stage ∈ rest, Blanks stage.before ∧ Blanks stage.behind) →
    List.Forall₂ SameText (pieces (joinText first rest ++ gap)) (first :: rest.map (·.cmd)) := by
  intro rest
  induction rest with
  | nil =>
      intro first hsegments _
      have hpipe : '|' ∉ first ++ gap := by
        rw [List.mem_append, not_or]
        exact ⟨(hsegments first (by simp)).noPipe, hgap.notMem rfl⟩
      rw [joinText, pieces_of_notMem hpipe]
      exact List.Forall₂.cons (core_append_of_blanks first hgap) List.Forall₂.nil
  | cons stage rest ih =>
      intro first hsegments hblanks
      obtain ⟨hbefore, hbehind⟩ := hblanks stage (by simp)
      have hpipe : '|' ∉ first ++ stage.before := by
        rw [List.mem_append, not_or]
        exact ⟨(hsegments first (by simp)).noPipe, hbefore.notMem rfl⟩
      have htext : joinText first (stage :: rest) ++ gap
          = first ++ stage.before ++ '|' :: (stage.behind ++ (joinText stage.cmd rest ++ gap)) := by
        simp [joinText]
      have hnext := ih (fun cmd hcmd => hsegments cmd (List.mem_cons_of_mem _ hcmd))
        (fun stage hstage => hblanks stage (List.mem_cons_of_mem _ hstage))
      rw [htext, pieces_append_pipe hpipe, dropWhile_blanks hbehind,
        joinText_starts (hsegments stage.cmd (by simp))]
      exact List.Forall₂.cons (core_append_of_blanks first hbefore) hnext

/-- The `&` is found where there is one. -/
theorem Pipeline.cutAsync_text (p : Pipeline) : ∃ gap, Blanks gap ∧
    cutAsync p.text = (joinText p.first p.rest ++ gap, p.ending.isSome) := by
  unfold Pipeline.text
  cases hending : p.ending with
  | none =>
      obtain ⟨init, hjoin⟩ := joinText_last p.rest p.first
      have hne : core ((p.first :: p.rest.map (·.cmd)).getLast (by simp)) ≠ [] :=
        (p.segments _ (List.getLast_mem _)).core_ne_nil
      have hlast : (core (joinText p.first p.rest)).getLast? ≠ some '&' := by
        rw [hjoin, core_append_of_ne_nil init hne, List.getLast?_append_of_ne_nil _ hne]
        exact p.last
      refine ⟨[], by decide, ?_⟩
      rw [Pipeline.endText, List.append_nil, cutAsync_of_not hlast]
      rfl
  | some gaps =>
      obtain ⟨gap, gap'⟩ := gaps
      obtain ⟨hgap, hgap'⟩ := p.endBlanks gap gap' hending
      have hcore : core (joinText p.first p.rest ++ (gap ++ '&' :: gap'))
          = joinText p.first p.rest ++ gap ++ ['&'] := by
        have hsplit : joinText p.first p.rest ++ (gap ++ '&' :: gap')
            = joinText p.first p.rest ++ gap ++ ['&'] ++ gap' := by simp
        rw [hsplit, core_append_of_blanks _ hgap']
        exact List.rdropWhile_concat_neg isBlank _ _ (by decide)
      refine ⟨gap, hgap, ?_⟩
      rw [Pipeline.endText, cutAsync_of_and hcore]
      rfl

/--
**The split undoes the join.**  Every command of the pipeline is one of the strings, in the
same order and up to blanks at its end, and `async` is set if and only if there is a `&`.
-/
theorem split_undoes_join (p : Pipeline) (htext : line.text = p.text) :
    ∃ cmds, Splits line front cmds p.ending.isSome ∧
      List.Forall₂ SameText (cmds.map (·.text)) p.cmds := by
  obtain ⟨gap, hgap, hcut⟩ := p.cutAsync_text
  have hpieces := pieces_joinText hgap p.segments p.blanks
  have hfront : line.text = [] → front 0 ≠ '&' := by
    intro hnil
    obtain ⟨init, hjoin⟩ := joinText_last p.rest p.first
    rw [htext, Pipeline.text, hjoin, List.append_eq_nil_iff, List.append_eq_nil_iff] at hnil
    exact absurd hnil.1.2 (p.segments _ (List.getLast_mem _)).nonempty
  have hfew : (pieces (cutAsync line.text).1).length ≤ maxPipe := by
    rw [htext, hcut, hpieces.length_eq]
    exact p.few
  obtain ⟨cmds, hsplits, htexts, -⟩ := splits_pieces hfront hfew
  rw [htext, hcut] at hsplits htexts
  refine ⟨cmds, hsplits, ?_⟩
  rw [htexts]
  exact hpieces

/-- `ls -l | wc &`, with a tab and more blanks. -/
def listing : Pipeline where
  first := "ls -l".toList
  rest := [{ before := [' '], behind := ['\t', ' '], cmd := "wc".toList }]
  ending := some ([' '], [' '])
  segments := by
    intro cmd hcmd
    simp only [List.map_cons, List.map_nil, List.mem_cons, List.not_mem_nil, or_false] at hcmd
    rcases hcmd with rfl | rfl
    · exact ⟨by decide, rfl, by decide⟩
    · exact ⟨by decide, rfl, by decide⟩
  blanks := by decide
  few := by decide
  last := by decide
  endBlanks := by
    rintro gap gap' heq
    cases heq
    decide

def listingLine : Line where
  text := "ls -l |\t wc & ".toList
  noNul := by decide
  rest _ := '\x00'

theorem split_undoes_join_listing : listingLine.text = listing.text ∧
    ∃ cmds, Splits listingLine (fun _ => '\x00') cmds true ∧
      List.Forall₂ SameText (cmds.map (·.text)) ["ls -l".toList, "wc".toList] := by
  have htext : listingLine.text = listing.text := by decide
  exact ⟨htext, split_undoes_join listing htext⟩

end Shell
