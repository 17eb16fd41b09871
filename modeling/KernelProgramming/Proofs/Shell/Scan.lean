/-
The scan of a command, one piece of the line at a time.

`Line.At` says what is left of the command at a position, and every loop of the scan is
described by what it does to what is left: blanks are skipped, a path is read up to the
next blank, plain characters go to the argument.  `Leads` is where the scan ends when it
is given enough iterations, so no lemma below counts them.

A path at the end of the command is a special case.  The loop that skips the blanks
behind it starts behind the terminator and ends somewhere beyond, at the first character
there that is none.
-/
import KernelProgramming.Shell.Command
import KernelProgramming.Shell.Input
import KernelProgramming.Lib.Fuel

namespace Shell

open Fuel

variable {pid exitStatus : Int} {line : Line} {s s' r : Scan} {i : Nat} {c : Char}
  {gap path suf w : CString}

/-! ### Positions -/

/-- `suf` is what is left of the command at `i`. -/
def Line.At (line : Line) (i : Nat) (suf : CString) : Prop :=
  ∃ pre, line.text = pre ++ suf ∧ pre.length = i

theorem Line.At.zero (line : Line) : line.At 0 line.text := ⟨[], rfl, rfl⟩

theorem Line.At.strlen (h : line.At i suf) : line.strlen = i + suf.length := by
  obtain ⟨pre, htext, hlen⟩ := h
  rw [Line.strlen, htext, List.length_append, hlen]

theorem Line.At.append (h : line.At i (w ++ suf)) : line.At (i + w.length) suf := by
  obtain ⟨pre, htext, hlen⟩ := h
  refine ⟨pre ++ w, ?_, ?_⟩
  · rw [htext, List.append_assoc]
  · rw [List.length_append, hlen]

theorem Line.At.next (h : line.At i (c :: suf)) : line.At (i + 1) suf :=
  Line.At.append (w := [c]) h

/-- The next character, or the terminator. -/
theorem Line.At.get (h : line.At i suf) : line.get i = suf.headD '\x00' := by
  have hstrlen := h.strlen
  obtain ⟨pre, htext, hlen⟩ := h
  unfold Line.strlen at hstrlen
  unfold Line.get
  cases suf with
  | nil =>
      rw [List.length_nil] at hstrlen
      rw [dif_neg (by omega), if_pos (by omega)]
      rfl
  | cons c suf =>
      rw [List.length_cons] at hstrlen
      rw [dif_pos (by omega)]
      simp only [htext]
      rw [List.getElem_append_right (by omega)]
      simp [hlen]

theorem Line.At.slice (h : line.At i (w ++ suf)) : line.slice i w.length = w := by
  have hget : (List.range w.length).map (fun k => line.get (i + k)) = w := by
    refine List.ext_getElem (by simp) ?_
    intro k hk hkw
    have hat : line.At (i + k) (w.drop k ++ suf) := by
      have hsplit : w ++ suf = w.take k ++ (w.drop k ++ suf) := by
        rw [← List.append_assoc, List.take_append_drop]
      rw [hsplit] at h
      have hnext := h.append
      rw [List.length_take, Nat.min_eq_left (by omega)] at hnext
      exact hnext
    rw [List.getElem_map, List.getElem_range, hat.get, List.drop_eq_getElem_cons hkw]
    rfl
  unfold Line.slice
  rw [hget]
  refine List.takeWhile_eq_self_iff.mpr ?_
  intro c hc
  obtain ⟨pre, htext, -⟩ := h
  have hnul : c ≠ '\x00' := by
    rintro rfl
    refine line.noNul ?_
    rw [htext]
    simp [hc]
  simpa using hnul

/-! ### Blanks -/

theorem isDelim_blank (c : Char) : isDelim c ' ' = isBlank c := by
  unfold isDelim isBlank
  by_cases hspace : c = ' '
  · subst hspace
    rfl
  · by_cases htab : c = '\t'
    · subst htab
      rfl
    · simp [hspace, htab, Ne.symm hspace]

/-- There are only blanks. -/
def Blanks (gap : CString) : Prop := ∀ c ∈ gap, isBlank c = true

-- The characters are finitely many, but it is the list that is to be gone through.
instance (gap : CString) : Decidable (Blanks gap) :=
  List.decidableBAll (isBlank · = true) gap

/-- What is left does not start with a blank. -/
def Stops (suf : CString) : Prop := isBlank (suf.headD '\x00') = false

/-- Where the blanks end there is none. -/
theorem stops_dropWhile (suf : CString) : Stops (suf.dropWhile isBlank) := by
  unfold Stops
  cases hdrop : suf.dropWhile isBlank with
  | nil => rfl
  | cons c rest =>
      have hhead := List.head_dropWhile_not isBlank (show suf.dropWhile isBlank ≠ [] by simp [hdrop])
      simp only [hdrop, List.head_cons] at hhead
      simpa using hhead

theorem blanks_takeWhile (suf : CString) : Blanks (suf.takeWhile isBlank) :=
  fun _ hc => List.mem_takeWhile_imp hc

theorem skipBlanks_at (hgap : Blanks gap) (hsuf : Stops suf) : ∀ {i fuel : Nat},
    line.At i (gap ++ suf) → gap.length < fuel →
    skipBlanks line fuel i = some (i + gap.length) := by
  induction gap with
  | nil =>
      intro i fuel h hfuel
      obtain ⟨fuel, rfl⟩ := Nat.exists_eq_add_one_of_ne_zero (show fuel ≠ 0 by omega)
      rw [skipBlanks, h.get, isDelim_blank, List.nil_append, hsuf]
      rfl
  | cons c gap ih =>
      intro i fuel h hfuel
      rw [List.length_cons] at hfuel
      obtain ⟨fuel, rfl⟩ := Nat.exists_eq_add_one_of_ne_zero (show fuel ≠ 0 by omega)
      rw [skipBlanks, h.get, isDelim_blank, List.cons_append, List.headD_cons,
        hgap c List.mem_cons_self, if_pos rfl,
        ih (fun c hc => hgap c (List.mem_cons_of_mem _ hc)) h.next (by omega), List.length_cons]
      congr 1
      omega

/-- Some character from `i` on is no blank, so the loop ends. -/
theorem skipBlanks_ends (line : Line) : ∀ (d : Nat) {i : Nat},
    isBlank (line.get (i + d)) = false →
    ∃ j, i ≤ j ∧ ∀ fuel, d < fuel → skipBlanks line fuel i = some j := by
  intro d
  induction d with
  | zero =>
      intro i hstop
      refine ⟨i, le_refl _, fun fuel hfuel => ?_⟩
      obtain ⟨fuel, rfl⟩ := Nat.exists_eq_add_one_of_ne_zero (show fuel ≠ 0 by omega)
      rw [Nat.add_zero] at hstop
      rw [skipBlanks, isDelim_blank, hstop]
      rfl
  | succ d ih =>
      intro i hstop
      cases hblank : isBlank (line.get i) with
      | false =>
          refine ⟨i, le_refl _, fun fuel hfuel => ?_⟩
          obtain ⟨fuel, rfl⟩ := Nat.exists_eq_add_one_of_ne_zero (show fuel ≠ 0 by omega)
          rw [skipBlanks, isDelim_blank, hblank]
          rfl
      | true =>
          rw [show i + (d + 1) = i + 1 + d from by omega] at hstop
          obtain ⟨j, hle, hskip⟩ := ih hstop
          refine ⟨j, by omega, fun fuel hfuel => ?_⟩
          obtain ⟨fuel, rfl⟩ := Nat.exists_eq_add_one_of_ne_zero (show fuel ≠ 0 by omega)
          rw [skipBlanks, isDelim_blank, hblank, if_pos rfl]
          exact hskip fuel (by omega)

/-! ### Paths -/

/-- What is left is nothing, or starts with a blank. -/
def Parted (suf : CString) : Prop := suf = [] ∨ isBlank (suf.headD '\x00') = true

theorem pathEnd_at (hsuf : Parted suf) : ∀ {path : CString} {i fuel : Nat}, path ≠ [] →
    (∀ c ∈ path, isBlank c = false) → line.At i (path ++ suf) → path.length < fuel →
    pathEnd line fuel i = some (i + path.length) := by
  intro path
  induction path with
  | nil =>
      intro i fuel hne
      exact absurd rfl hne
  | cons c path ih =>
      intro i fuel _ hpath h hfuel
      rw [List.length_cons] at hfuel
      obtain ⟨fuel, rfl⟩ := Nat.exists_eq_add_one_of_ne_zero (show fuel ≠ 0 by omega)
      have hstrlen := h.strlen
      rw [List.length_append, List.length_cons] at hstrlen
      have hnext : line.At (i + 1) (path ++ suf) := h.next
      rw [pathEnd, if_pos (by omega), hnext.get, isDelim_blank]
      cases path with
      | nil =>
          rcases hsuf with rfl | hblank
          · rw [if_neg (by decide)]
            obtain ⟨fuel, rfl⟩ :=
              Nat.exists_eq_add_one_of_ne_zero (show fuel ≠ 0 by simp at hfuel; omega)
            simp only [List.length_nil] at hstrlen
            rw [pathEnd, if_neg (by omega)]
            rfl
          · rw [List.nil_append, if_pos hblank]
            rfl
      | cons c' path =>
          rw [List.cons_append, List.headD_cons, hpath c' (by simp), if_neg (by simp),
            ih (by simp) (fun c hc => hpath c (List.mem_cons_of_mem _ hc)) hnext (by omega)]
          simp only [List.length_cons]
          congr 1
          omega

theorem getPath_at (hgap : Blanks gap) (hne : path ≠ []) (hpath : ∀ c ∈ path, isBlank c = false)
    (hsuf : Parted suf) (h : line.At (i + 1) (gap ++ (path ++ suf))) {fuel : Nat}
    (hfuel : gap.length + path.length < fuel) :
    getPath line fuel i = some (path, i + 1 + gap.length + path.length) := by
  have hstops : Stops (path ++ suf) := by
    obtain ⟨c, path', rfl⟩ := List.exists_cons_of_ne_nil hne
    exact hpath c (by simp)
  have hat := h.append
  unfold getPath
  rw [skipBlanks_at hgap hstops h (by omega), Option.bind_some,
    pathEnd_at hsuf hne hpath hat (by omega), Option.map_some, Nat.add_sub_cancel_left, hat.slice]

/-! ### Redirections -/

/-- `>`, `>>`, `&>` and `<`. -/
inductive Operator
  | output | append | outputAndError | input
  deriving DecidableEq, Repr

def Operator.text : Operator → CString
  | .output => ['>']
  | .append => ['>', '>']
  | .outputAndError => ['&', '>']
  | .input => ['<']

def Operator.redirection (path : CString) : Operator → Redirection
  | .output => .output path false
  | .append => .output path true
  | .outputAndError => .outputAndError path
  | .input => .input path

/-- **A redirection is read**, and the blanks behind it are skipped. -/
theorem processRedirection_at (op : Operator) (hgap : Blanks gap) (hne : path ≠ [])
    (hpath : ∀ c ∈ path, isBlank c = false ∧ c ≠ '>') (hsuf : Parted suf)
    (h : line.At i (op.text ++ (gap ++ (path ++ suf)))) {fuel : Nat}
    (hfuel : gap.length + path.length < fuel) :
    processRedirection line fuel i
      = (skipBlanks line fuel (i + op.text.length + gap.length + path.length + 1)).map
          fun j => (some (op.redirection path), j) := by
  have hblank : ∀ c ∈ path, isBlank c = false := fun c hc => (hpath c hc).1
  -- What follows the operator is a blank or the path, and so not another `>`.
  have hfollows : (gap ++ (path ++ suf)).headD '\x00' ≠ '>' := by
    cases gap with
    | nil =>
        obtain ⟨c, path', rfl⟩ := List.exists_cons_of_ne_nil hne
        exact (hpath c (by simp)).2
    | cons c gap =>
        have hc := hgap c (by simp)
        rintro rfl
        exact absurd hc (by decide)
  unfold processRedirection
  cases op with
  | output =>
      have hget : line.get i = '>' := h.get
      have hnext : line.get (i + 1) ≠ '>' := by
        rw [Line.At.get (Line.At.next h)]
        exact hfollows
      dsimp only
      rw [hget, if_pos rfl, if_neg hnext, getPath_at hgap hne hblank hsuf (Line.At.next h) hfuel]
      rfl
  | append =>
      have hget : line.get i = '>' := h.get
      have hnext : line.get (i + 1) = '>' := Line.At.get (Line.At.next h)
      dsimp only
      rw [hget, if_pos rfl, if_pos hnext,
        getPath_at hgap hne hblank hsuf (Line.At.next (Line.At.next h)) hfuel]
      rfl
  | outputAndError =>
      have hget : line.get i = '&' := h.get
      have hnext : line.get (i + 1) = '>' := Line.At.get (Line.At.next h)
      dsimp only
      rw [hget, if_neg (by decide), if_pos ⟨rfl, hnext⟩,
        getPath_at hgap hne hblank hsuf (Line.At.next (Line.At.next h)) hfuel]
      rfl
  | input =>
      have hget : line.get i = '<' := h.get
      dsimp only
      rw [hget, if_neg (by decide), if_neg (by simp), if_pos rfl,
        getPath_at hgap hne hblank hsuf (Line.At.next h) hfuel]
      rfl

/-! ### One iteration -/

/-- The character is copied, wherever it stands. -/
structure Plain (delim c : Char) : Prop where
  notDelim : isDelim c delim = false
  notQuote : delim = ' ' → c ≠ '"' ∧ c ≠ '\''
  notDollar : delim ≠ '\'' → c ≠ '$'
  notOutput : c ≠ '>'
  notInput : c ≠ '<'

theorem processRedirection_plain (houtput : line.get i ≠ '>') (hinput : line.get i ≠ '<')
    (hboth : line.get i = '&' → line.get (i + 1) ≠ '>') (fuel : Nat) :
    processRedirection line fuel i = some (none, i) := by
  unfold processRedirection
  dsimp only
  rw [if_neg houtput, if_neg (fun h => hboth h.1 h.2), if_neg hinput]

theorem scanBody_plain (h : line.At s.i (c :: suf)) (hplain : Plain s.delim c) (hmore : suf ≠ [])
    (hboth : c = '&' → suf.headD '\x00' ≠ '>') (fuel : Nat) :
    scanBody pid exitStatus line fuel s
      = some (false, { s with arg := s.arg ++ [c], i := s.i + 1 }) := by
  have hget : line.get s.i = c := h.get
  have hstrlen := h.strlen
  have hlen := List.length_pos_of_ne_nil hmore
  rw [List.length_cons] at hstrlen
  have hquote : ¬((c = '"' ∨ c = '\'') ∧ s.delim = ' ') := by
    rintro ⟨hc, hd⟩
    rcases hc with hc | hc
    · exact (hplain.notQuote hd).1 hc
    · exact (hplain.notQuote hd).2 hc
  have hdollar : ¬(s.delim ≠ '\'' ∧ c = '$' ∧
      (line.get (s.i + 1) = '$' ∨ line.get (s.i + 1) = '?')) := by
    rintro ⟨hd, hc, -⟩
    exact hplain.notDollar hd hc
  have hredirection : processRedirection line fuel s.i = some (none, s.i) := by
    refine processRedirection_plain ?_ ?_ ?_ fuel
    · rw [hget]
      exact hplain.notOutput
    · rw [hget]
      exact hplain.notInput
    · rw [hget, h.next.get]
      exact hboth
  unfold scanBody
  dsimp only
  rw [hget, if_neg (by rw [hplain.notDelim]; simp), if_neg (by omega), if_neg hquote, if_neg hdollar,
    hredirection]
  rfl

/-- The character ends the argument, and the blanks behind it are skipped. -/
theorem scanBody_delim (h : line.At s.i (c :: (gap ++ suf))) (hdelim : isDelim c s.delim = true)
    (hquote : s.delim = ' ' ∨ s.delim = '\'' ∨ s.delim = '"') (hgap : Blanks gap)
    (hsuf : Stops suf) {fuel : Nat} (hfuel : gap.length < fuel) :
    scanBody pid exitStatus line fuel s
      = some (false, { s.endArg with i := s.i + 1 + gap.length, arg := [], delim := ' ' }) := by
  have hget : line.get s.i = c := h.get
  have hspace : (if s.delim = '\'' ∨ s.delim = '"' then ' ' else s.delim) = ' ' := by
    split
    · rfl
    · tauto
  unfold scanBody
  dsimp only
  rw [hget, if_pos hdelim, skipBlanks_at hgap hsuf h.next hfuel, Option.map_some, hspace]

/-- The last character of the command. -/
theorem scanBody_last (h : line.At s.i [c]) (hdelim : s.delim = ' ') (hblank : isBlank c = false)
    (fuel : Nat) :
    scanBody pid exitStatus line fuel s
      = some (true, { s with arg := s.arg ++ [c] }.endArg) := by
  have hget : line.get s.i = c := h.get
  have hstrlen := h.strlen
  rw [List.length_singleton] at hstrlen
  unfold scanBody
  dsimp only
  rw [hget, hdelim, isDelim_blank, hblank, if_neg (by simp), if_pos (by omega), if_pos rfl]

/-- A quote is opened. -/
theorem scanBody_quote (h : line.At s.i (c :: suf)) (hmore : suf ≠ []) (hdelim : s.delim = ' ')
    (hquote : c = '\'' ∨ c = '"') (fuel : Nat) :
    scanBody pid exitStatus line fuel s = some (false, { s with delim := c, i := s.i + 1 }) := by
  have hget : line.get s.i = c := h.get
  have hstrlen := h.strlen
  have hlen := List.length_pos_of_ne_nil hmore
  rw [List.length_cons] at hstrlen
  have hblank : isBlank c = false := by
    rcases hquote with rfl | rfl <;> rfl
  unfold scanBody
  dsimp only
  rw [hget, hdelim, isDelim_blank, hblank, if_neg (by simp), if_neg (by omega),
    if_pos ⟨Or.symm hquote, rfl⟩]

/-- A redirection is met. -/
theorem scanBody_redirection {op : Operator} (h : line.At s.i (op.text ++ suf)) (hmore : suf ≠ [])
    (hdelim : s.delim = ' ') {fuel j : Nat} {redirection : Redirection}
    (hredirection : processRedirection line fuel s.i = some (some redirection, j)) :
    scanBody pid exitStatus line fuel s
      = some (false, { s with i := j, redirections := s.redirections ++ [redirection] }) := by
  have hstrlen := h.strlen
  have hlen := List.length_pos_of_ne_nil hmore
  rw [List.length_append] at hstrlen
  have hget : line.get s.i = '>' ∨ line.get s.i = '&' ∨ line.get s.i = '<' := by
    cases op with
    | output => exact Or.inl h.get
    | append => exact Or.inl h.get
    | outputAndError => exact Or.inr (Or.inl h.get)
    | input => exact Or.inr (Or.inr h.get)
  have htext : 0 < op.text.length := by cases op <;> decide
  unfold scanBody
  dsimp only
  rw [hdelim, isDelim_blank]
  rcases hget with hget | hget | hget
  all_goals
    rw [hget, if_neg (by decide), if_neg (by omega), if_neg (by decide), if_neg (by simp),
      hredirection]
    rfl

/-! ### The scan -/

/-- The scan ends with `r`, given enough iterations. -/
def Leads (pid exitStatus : Int) (line : Line) (s r : Scan) : Prop :=
  Gives (scanLoop pid exitStatus line · s) r

theorem Leads.done (h : line.strlen ≤ s.i) : Leads pid exitStatus line s s := by
  refine ⟨1, fun fuel hfuel => ?_⟩
  obtain ⟨fuel, rfl⟩ := Nat.exists_eq_add_one_of_ne_zero (show fuel ≠ 0 by omega)
  show scanLoop pid exitStatus line (fuel + 1) s = some s
  rw [scanLoop, if_neg (by omega)]

theorem Leads.leave (enough : Nat) (hi : s.i < line.strlen)
    (hbody : ∀ fuel, enough ≤ fuel → scanBody pid exitStatus line fuel s = some (true, r)) :
    Leads pid exitStatus line s r := by
  refine ⟨enough + 1, fun fuel hfuel => ?_⟩
  obtain ⟨fuel, rfl⟩ := Nat.exists_eq_add_one_of_ne_zero (show fuel ≠ 0 by omega)
  show scanLoop pid exitStatus line (fuel + 1) s = some r
  rw [scanLoop, if_pos hi, hbody _ (by omega)]
  rfl

theorem Leads.step_iff (enough : Nat) (hi : s.i < line.strlen)
    (hbody : ∀ fuel, enough ≤ fuel → scanBody pid exitStatus line fuel s = some (false, s')) :
    Leads pid exitStatus line s r ↔ Leads pid exitStatus line s' r := by
  refine gives_add_iff 1 enough fun fuel hfuel => ?_
  show scanLoop pid exitStatus line (fuel + 1) s = scanLoop pid exitStatus line fuel s'
  rw [scanLoop, if_pos hi, hbody _ (by omega)]
  rfl

/-- **Plain characters are copied.**  A `&` must not be followed by a `>`. -/
theorem Leads.plain_iff : ∀ {w : CString} {s : Scan}, line.At s.i (w ++ suf) → suf ≠ [] →
    (∀ c ∈ w, Plain s.delim c) → (w.getLast? = some '&' → suf.headD '\x00' ≠ '>') →
    (Leads pid exitStatus line s r ↔
      Leads pid exitStatus line { s with arg := s.arg ++ w, i := s.i + w.length } r) := by
  intro w
  induction w with
  | nil =>
      intro s _ _ _ _
      rw [List.append_nil]
      exact Iff.rfl
  | cons c w ih =>
      intro s h hmore hplain hboth
      have hstrlen := h.strlen
      rw [List.length_append, List.length_cons] at hstrlen
      have hnext : c = '&' → (w ++ suf).headD '\x00' ≠ '>' := by
        rintro rfl
        cases w with
        | nil => exact hboth rfl
        | cons c w => exact (hplain c (by simp)).notOutput
      have hboth' : w.getLast? = some '&' → suf.headD '\x00' ≠ '>' := by
        intro hlast
        refine hboth ?_
        rw [List.getLast?_cons, hlast]
        rfl
      have hrest := ih (s := { s with arg := s.arg ++ [c], i := s.i + 1 }) h.next hmore
        (fun c hc => hplain c (List.mem_cons_of_mem _ hc)) hboth'
      rw [Leads.step_iff 0 (by omega) (fun fuel _ =>
        scanBody_plain h (hplain c (by simp)) (by simp [hmore]) hnext fuel), hrest, List.length_cons]
      simp only [List.append_assoc, List.cons_append, List.nil_append]
      rw [Nat.add_assoc, Nat.add_comm 1]

end Shell
