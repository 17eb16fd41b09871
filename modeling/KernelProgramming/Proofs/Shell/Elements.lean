/-
The elements of a command.

Every iteration of the scan in `process_cmd` takes one element from the line: the end of
an argument, an opening quote, `$$` or `$?`, a redirection, or a character.  Here the
elements are cut from the text alone, and then every iteration is shown to take one and
to use the cells that belong to it (`scanBody_element`).

What is stored depends on the elements and on nothing else.  What is read lies inside the
string, with one exception.  A redirection whose path goes up to the end of the line runs
out of it: the loop that skips the blanks behind the path starts behind the terminator.
-/
import KernelProgramming.Proofs.Shell.Accesses

namespace Shell

open Traced Fuel

/-! ### Elements -/

/-- What an iteration takes from the line.  A mark is `$$` or `$?`, with the second character; it
is final when nothing follows it.  The last character is copied unless a quote is open. -/
inductive Element
  | ends
  | opens
  | mark (c : Char) (final : Bool)
  | char
  | redirect (path : CString)
  | runsOut (path : CString)
  | last (copied : Bool)
  deriving DecidableEq, Repr

/-- The operator that begins with `c`, and what is left behind it. -/
def operator? (c : Char) (suf : CString) : Option (Operator × CString) :=
  if c = '>' then
    if suf.headD '\x00' = '>' then some (.append, suf.tail) else some (.output, suf)
  else if c = '&' ∧ suf.headD '\x00' = '>' then some (.outputAndError, suf.tail)
  else if c = '<' then some (.input, suf)
  else none

/-- What stands behind an operator: the blanks, the path, and the rest. -/
structure Target where
  gap : CString
  path : CString
  rest : CString

def target (tail : CString) : Target where
  gap := tail.takeWhile isBlank
  path := (tail.dropWhile isBlank).takeWhile fun c => !isBlank c
  rest := (tail.dropWhile isBlank).dropWhile fun c => !isBlank c

/-- The redirection, and what is left behind the blanks that follow it. -/
def Target.element (t : Target) : Element × CString :=
  match t.rest with
  | [] => (.runsOut t.path, [])
  | _ :: behind => (.redirect t.path, behind.dropWhile isBlank)

/-- The first element of a text that begins with `c`, the delimiter from there on, and what is
left. -/
def element (delim c : Char) (suf : CString) : Element × Char × CString :=
  if isDelim c delim then (.ends, ' ', suf.dropWhile isBlank)
  else if suf = [] then (.last (delim = ' '), delim, [])
  else if (c = '"' ∨ c = '\'') ∧ delim = ' ' then (.opens, c, suf)
  else if delim ≠ '\'' ∧ c = '$' ∧ (suf.headD '\x00' = '$' ∨ suf.headD '\x00' = '?') then
    (.mark (suf.headD '\x00') (suf.tail = []), delim, suf.tail)
  else
    match operator? c suf with
    | none => (.char, delim, suf)
    | some (_, tail) => ((target tail).element.1, delim, (target tail).element.2)

theorem target_append (tail : CString) :
    (target tail).gap ++ ((target tail).path ++ (target tail).rest) = tail := by
  unfold target
  simp only [List.takeWhile_append_dropWhile]

theorem operator?_text {c : Char} {suf tail : CString} {op : Operator}
    (h : operator? c suf = some (op, tail)) : c :: suf = op.text ++ tail := by
  have hcons : suf.headD '\x00' = '>' → suf = '>' :: suf.tail := by
    intro hhead
    cases suf with
    | nil => exact absurd hhead (by decide)
    | cons d suf =>
        rw [List.headD_cons] at hhead
        rw [hhead, List.tail_cons]
  unfold operator? at h
  split_ifs at h with houtput happend hboth hinput
  · cases h
    rw [houtput, hcons happend]
    rfl
  · cases h
    rw [houtput]
    rfl
  · cases h
    rw [hboth.1, hcons hboth.2]
    rfl
  · cases h
    rw [hinput]
    rfl

theorem operator?_length {c : Char} {suf tail : CString} {op : Operator}
    (h : operator? c suf = some (op, tail)) : tail.length ≤ suf.length := by
  have htext := congrArg List.length (operator?_text h)
  rw [List.length_cons, List.length_append] at htext
  have hpos : 0 < op.text.length := by cases op <;> decide
  omega

theorem Target.element_length (tail : CString) : (target tail).element.2.length ≤ tail.length := by
  have happend := congrArg List.length (target_append tail)
  rw [List.length_append, List.length_append] at happend
  unfold Target.element
  split
  · exact Nat.zero_le _
  · rename_i b behind hrest
    rw [hrest, List.length_cons] at happend
    have hle := (List.dropWhile_suffix isBlank (l := behind)).length_le
    dsimp only
    omega

theorem element_length (delim c : Char) (suf : CString) :
    (element delim c suf).2.2.length ≤ suf.length := by
  unfold element
  split_ifs
  · exact (List.dropWhile_suffix isBlank).length_le
  · exact Nat.zero_le _
  · exact le_refl _
  · rw [List.length_tail]
    exact Nat.sub_le _ _
  · split
    · exact le_refl _
    · rename_i op tail hop
      exact (Target.element_length tail).trans (operator?_length hop)

/-- **The elements of a text.** -/
def elements (delim : Char) : CString → List Element
  | [] => []
  | c :: suf =>
      (element delim c suf).1 :: elements (element delim c suf).2.1 (element delim c suf).2.2
termination_by text => text.length
decreasing_by
  have hle := element_length delim c suf
  rw [List.length_cons]
  omega

example : elements ' ' "ls>>f 'a".toList
    = [.char, .char, .redirect ['f'], .opens, .last false] := by
  simp [elements, element, operator?, target, Target.element, isDelim, isBlank]

/-! ### What is returned -/

variable {pid exitStatus : Int} {line : Line} {s : Scan} {fuel i : Nat} {c : Char}
  {suf tail : CString}

theorem Line.At.dropBlanks (h : line.At i suf) :
    line.At (i + (suf.takeWhile isBlank).length) (suf.dropWhile isBlank) := by
  refine Line.At.append ?_
  rwa [List.takeWhile_append_dropWhile]

/-- The blanks at the front are skipped. -/
theorem skipBlanks_front (h : line.At i suf) (hfuel : suf.length < fuel) :
    skipBlanks line fuel i = some (i + (suf.takeWhile isBlank).length) := by
  have hlength : (suf.takeWhile isBlank).length ≤ suf.length :=
    (List.takeWhile_prefix isBlank).length_le
  rw [← List.takeWhile_append_dropWhile (p := isBlank) (l := suf)] at h
  exact skipBlanks_at (blanks_takeWhile suf) (stops_dropWhile suf) h (by omega)

theorem parted_rest (tail : CString) : Parted (target tail).rest := by
  unfold Parted
  by_cases hnil : (target tail).rest = []
  · exact Or.inl hnil
  · refine Or.inr ?_
    have hhead := List.head_dropWhile_not (fun c => !isBlank c) hnil
    obtain ⟨b, behind, hrest⟩ := List.exists_cons_of_ne_nil hnil
    simp only [target] at hrest hhead ⊢
    simp only [hrest, List.head_cons, Bool.not_eq_false'] at hhead
    rw [hrest]
    exact hhead

/-- Where the path behind an operator ends; `i` is the position of its first blank. -/
def Target.stop (t : Target) (i : Nat) : Nat := i + t.gap.length + t.path.length

/-- There is no path only where the line ends. -/
theorem Target.rest_of_path (h : (target tail).path = []) : (target tail).rest = [] := by
  unfold target at h ⊢
  dsimp only at h ⊢
  have hstops := stops_dropWhile tail
  cases hdrop : tail.dropWhile isBlank with
  | nil => rfl
  | cons c rest =>
      rw [hdrop] at h hstops
      have hblank : isBlank c = false := hstops
      rw [List.takeWhile_cons_of_pos (by simp [hblank])] at h
      exact absurd h (by simp)

theorem target_at (h : line.At i tail) :
    line.At (i + (target tail).gap.length) ((target tail).path ++ (target tail).rest) := by
  rw [← target_append tail] at h
  exact h.append

/-- The second loop of `get_path`. -/
theorem pathEnd_target (h : line.At i tail) (hfuel : tail.length + 1 < fuel) :
    pathEnd line fuel (i + (target tail).gap.length) = some ((target tail).stop i) := by
  have hat := target_at h
  have hlength := congrArg List.length (target_append tail)
  rw [List.length_append, List.length_append] at hlength
  by_cases hnone : (target tail).path = []
  · -- Behind the blanks is the terminator, and the loop ends at once.
    have hstrlen := hat.strlen
    rw [hnone, Target.rest_of_path hnone, List.append_nil, List.length_nil] at hstrlen
    obtain ⟨fuel, rfl⟩ := Nat.exists_eq_add_one_of_ne_zero (show fuel ≠ 0 by omega)
    rw [pathEnd, if_neg (by omega), Target.stop, hnone]
    rfl
  · have hpath : ∀ c ∈ (target tail).path, isBlank c = false := by
      intro c hc
      have hnot := List.mem_takeWhile_imp hc
      simpa using hnot
    exact pathEnd_at (parted_rest tail) hnone hpath hat (by omega)

theorem Target.at_stop (h : line.At i tail) : line.At ((target tail).stop i) (target tail).rest :=
  (target_at h).append

/-- **`get_path` finds the path.** -/
theorem getPath_target (h : line.At (i + 1) tail) (hfuel : tail.length + 1 < fuel) :
    getPath line fuel i = some ((target tail).path, (target tail).stop (i + 1)) := by
  have hskip : skipBlanks line fuel (i + 1) = some (i + 1 + (target tail).gap.length) :=
    skipBlanks_front h (by omega)
  unfold getPath
  rw [hskip, Option.bind_some, pathEnd_target h hfuel, Option.map_some, Target.stop,
    Nat.add_sub_cancel_left, (target_at h).slice]

/-! ### What is used -/

section accesses

variable {P : Access → Prop} (hread : ∀ k, k ≤ line.strlen → P (.read k))

theorem always_get : Always P (Accessing.get line i) ↔ P (.read i) := by
  unfold Accessing.get
  rw [always_mk, List.forall_mem_singleton]

theorem always_endArg : Always P (Accessing.endArg s) ↔
    P (.arg s.arg.length) ∧ P (.argv s.argv.length) := by
  unfold Accessing.endArg
  rw [always_bind_of_result (result_emit _), always_emit, List.forall_mem_cons,
    List.forall_mem_singleton]
  exact and_iff_left (always_pure _)

theorem get_strlen (line : Line) : line.get line.strlen = '\x00' :=
  (show line.At line.strlen [] from ⟨line.text, (List.append_nil _).symm, rfl⟩).get

include hread

/-- The terminator is no blank, so the loop does not pass it. -/
theorem always_skipBlanks : ∀ {fuel i : Nat}, i ≤ line.strlen →
    Always P (Accessing.skipBlanks line fuel i) := by
  intro fuel
  induction fuel with
  | zero =>
      intro i _
      exact always_stuck
  | succ fuel ih =>
      intro i hi
      rw [Accessing.skipBlanks, always_bind_of_result (Accessing.result_get line i), always_get]
      refine ⟨hread i hi, ?_⟩
      split
      · rename_i hblank
        have hne : i ≠ line.strlen := by
          rintro rfl
          rw [get_strlen] at hblank
          exact absurd hblank (by decide)
        exact ih (by omega)
      · exact always_pure _

theorem always_pathEnd : ∀ {fuel i : Nat}, Always P (Accessing.pathEnd line fuel i) := by
  intro fuel
  induction fuel with
  | zero =>
      intro i
      exact always_stuck
  | succ fuel ih =>
      intro i
      rw [Accessing.pathEnd]
      split
      · rename_i hlt
        rw [always_bind_of_result (Accessing.result_get line (i + 1)), always_get]
        refine ⟨hread (i + 1) hlt, ?_⟩
        split
        · exact always_pure _
        · exact ih
      · exact always_pure _

theorem always_copyPath {j n : Nat} (hle : j + n ≤ line.strlen) :
    Always P (Accessing.copyPath line j n) ↔ ∀ a ∈ (List.range (n + 1)).map Access.path, P a := by
  unfold Accessing.copyPath
  rw [always_bind_of_result (result_emit _), always_bind_of_result (result_emit _), always_emit,
    always_emit]
  have hreads : ∀ a ∈ (List.range (min n ((line.slice j n).length + 1))).map
      fun k => Access.read (j + k), P a := by
    simp only [List.forall_mem_map, List.mem_range]
    intro k hk
    exact hread _ (by omega)
  rw [and_iff_right hreads]
  exact and_iff_left (always_pure _)

theorem always_getPath (h : line.At (i + 1) tail) (hfuel : tail.length + 1 < fuel) :
    Always P (Accessing.getPath line fuel i) ↔
      ∀ a ∈ (List.range ((target tail).path.length + 1)).map Access.path, P a := by
  have hstrlen := (Target.at_stop h).strlen
  have hskip : skipBlanks line fuel (i + 1) = some (i + 1 + (target tail).gap.length) :=
    skipBlanks_front h (by omega)
  have hlength : (target tail).stop (i + 1) - (i + 1 + (target tail).gap.length)
      = (target tail).path.length := Nat.add_sub_cancel_left _ _
  have hcopy : Always P (Accessing.copyPath line (i + 1 + (target tail).gap.length)
      (target tail).path.length) ↔
      ∀ a ∈ (List.range ((target tail).path.length + 1)).map Access.path, P a :=
    always_copyPath hread (by unfold Target.stop at hstrlen; omega)
  unfold Accessing.getPath
  rw [always_bind_of_result ((Accessing.result_skipBlanks ..).trans hskip),
    always_bind_of_result ((Accessing.result_pathEnd ..).trans (pathEnd_target h hfuel)), hlength,
    always_bind_of_result (show _ = some _ from rfl), hcopy]
  have hi := h.strlen
  constructor
  · rintro ⟨-, -, hpath, -⟩
    exact hpath
  · intro hpath
    exact ⟨always_skipBlanks hread (by omega), always_pathEnd hread, hpath, always_pure _⟩

theorem always_redirect (h : line.At (i + 1) tail) (hfuel : tail.length + 1 < fuel)
    (kind : CString → Redirection) :
    Always P (Accessing.redirect line fuel kind i) ↔
      (∀ a ∈ (List.range ((target tail).path.length + 1)).map Access.path, P a) ∧
        Always P (Accessing.skipBlanks line fuel ((target tail).stop (i + 1) + 1)) := by
  unfold Accessing.redirect
  rw [always_bind_of_result ((Accessing.result_getPath ..).trans (getPath_target h hfuel)),
    always_getPath hread h hfuel, always_bind_iff]
  refine and_congr_right fun _ => and_iff_left ?_
  intro j _
  exact always_pure _

/-- An operator leads to the path behind it. -/
theorem processRedirection_operator {op : Operator} (h : line.At i (c :: suf)) (hmore : suf ≠ [])
    (hop : operator? c suf = some (op, tail)) :
    ∃ k, line.At (k + 1) tail ∧ ∀ fuel,
      (Accessing.processRedirection line fuel i).result
        = (Accessing.redirect line fuel (op.redirection ·) k).result ∧
      (Always P (Accessing.processRedirection line fuel i) ↔
        Always P (Accessing.redirect line fuel (op.redirection ·) k)) := by
  have hget : line.get i = c := h.get
  have hnext : line.get (i + 1) = suf.headD '\x00' := h.next.get
  have hstrlen := h.strlen
  have hpos := List.length_pos_of_ne_nil hmore
  rw [List.length_cons] at hstrlen
  have hfirst : Always P (Accessing.get line i) := always_get.mpr (hread i (by omega))
  have hsecond : Always P (Accessing.get line (i + 1)) :=
    always_get.mpr (hread (i + 1) (by omega))
  have hbehind : line.At (i + 1 + 1) suf.tail := by
    obtain ⟨d, suf, rfl⟩ := List.exists_cons_of_ne_nil hmore
    exact h.next.next
  unfold Accessing.processRedirection
  simp only [result_bind, Accessing.result_get, Option.bind_some,
    always_bind_of_result (Accessing.result_get line i), and_iff_right hfirst, hget]
  unfold operator? at hop
  split_ifs at hop with houtput happend hboth hinput
  · cases hop
    refine ⟨i + 1, hbehind, fun fuel => ?_⟩
    rw [if_pos houtput, result_bind, Accessing.result_get, Option.bind_some,
      always_bind_of_result (Accessing.result_get line (i + 1)), and_iff_right hsecond, hnext,
      if_pos happend]
    exact ⟨rfl, Iff.rfl⟩
  · cases hop
    refine ⟨i, h.next, fun fuel => ?_⟩
    rw [if_pos houtput, result_bind, Accessing.result_get, Option.bind_some,
      always_bind_of_result (Accessing.result_get line (i + 1)), and_iff_right hsecond, hnext,
      if_neg happend]
    exact ⟨rfl, Iff.rfl⟩
  · cases hop
    refine ⟨i + 1, hbehind, fun fuel => ?_⟩
    rw [if_neg houtput, if_pos hboth.1, result_bind, Accessing.result_get, Option.bind_some,
      always_bind_of_result (Accessing.result_get line (i + 1)), and_iff_right hsecond, hnext,
      if_pos hboth.2]
    exact ⟨rfl, Iff.rfl⟩
  · cases hop
    refine ⟨i, h.next, fun fuel => ?_⟩
    have hand : c ≠ '&' := by
      rw [hinput]
      decide
    rw [if_neg houtput, if_neg hand, if_pos hinput]
    exact ⟨rfl, Iff.rfl⟩

/-- Any other character leads to nothing. -/
theorem processRedirection_char (h : line.At i (c :: suf)) (hmore : suf ≠ [])
    (hop : operator? c suf = none) (fuel : Nat) :
    (Accessing.processRedirection line fuel i).result = some (none, i) ∧
      Always P (Accessing.processRedirection line fuel i) := by
  have hget : line.get i = c := h.get
  have hnext : line.get (i + 1) = suf.headD '\x00' := h.next.get
  have hstrlen := h.strlen
  have hpos := List.length_pos_of_ne_nil hmore
  rw [List.length_cons] at hstrlen
  unfold operator? at hop
  split_ifs at hop with houtput happend hboth hinput
  unfold Accessing.processRedirection
  rw [result_bind, Accessing.result_get, Option.bind_some,
    always_bind_of_result (Accessing.result_get line i), always_get, hget, if_neg houtput]
  split
  · rename_i hand
    have hother : suf.headD '\x00' ≠ '>' := fun hhead => hboth ⟨hand, hhead⟩
    rw [result_bind, Accessing.result_get, Option.bind_some,
      always_bind_of_result (Accessing.result_get line (i + 1)), always_get, hnext, if_neg hother]
    exact ⟨rfl, hread i (by omega), hread (i + 1) (by omega), always_pure _⟩
  · exact ⟨rfl, hread i (by omega), always_pure _⟩

theorem always_atMark (hlt : s.i < line.strlen) : Always P (Accessing.atMark line s) := by
  have hsecond := hread (s.i + 1) (by omega)
  unfold Accessing.atMark
  split
  · exact always_pure _
  · rw [always_bind_of_result (Accessing.result_get line s.i), always_get]
    refine ⟨hread s.i (by omega), ?_⟩
    split
    · rw [always_bind_of_result (Accessing.result_get line (s.i + 1)), always_get]
      refine ⟨hsecond, ?_⟩
      split
      · exact always_pure _
      · rw [always_bind_of_result (Accessing.result_get line (s.i + 1)), always_get]
        exact ⟨hsecond, always_pure _⟩
    · exact always_pure _

end accesses

/-! ### What an element stores -/

/-- What `sprintf` writes for `$$` or `$?`. -/
def markText (pid exitStatus : Int) (c : Char) : CString :=
  decimal (if c = '$' then pid else exitStatus)

namespace Element

/-- The length of the argument behind the element. -/
def argLength (pid exitStatus : Int) (j : Nat) : Element → Nat
  | .ends => 0
  | .mark c _ => j + (markText pid exitStatus c).length
  | .char => j + 1
  | _ => j

/-- The number of arguments behind the element. -/
def argCount (n : Nat) : Element → Nat
  | .ends | .last _ => n + 1
  | .mark _ final => if final then n + 1 else n
  | _ => n

/-- The cells that are written: `j` characters of the `n`-th argument are there. -/
def stores (pid exitStatus : Int) (j n : Nat) : Element → List Access
  | .ends => [.arg j, .argv n]
  | .opens => []
  | .mark c final =>
      (List.range ((markText pid exitStatus c).length + 1)).map (fun k => .arg (j + k)) ++
        if final then [.arg (j + (markText pid exitStatus c).length), .argv n] else []
  | .char => [.arg j]
  | .redirect path | .runsOut path => (List.range (path.length + 1)).map .path
  | .last copied => if copied then [.arg j, .arg (j + 1), .argv n] else [.arg j, .argv n]

end Element

/-! ### One iteration -/

section iteration

variable (P : Access → Prop) (pid exitStatus : Int) (line : Line) (s : Scan)

/-- The element is taken from the line, and the scan goes on behind it. -/
structure Takes (e : Element) (delim : Char) (suf : CString) (s' : Scan) : Prop where
  behind : line.At s'.i suf
  delim : s'.delim = delim
  arg : s'.arg.length = e.argLength pid exitStatus s.arg.length
  argv : s'.argv.length = e.argCount s.argv.length
  body : ∃ enough, ∀ fuel, enough ≤ fuel →
    (Accessing.scanBody pid exitStatus line fuel s).result = some (false, s') ∧
    (Always P (Accessing.scanBody pid exitStatus line fuel s) ↔
      ∀ a ∈ e.stores pid exitStatus s.arg.length s.argv.length, P a)

/-- The last character is taken, and the loop is left. -/
structure Leaves (e : Element) (s' : Scan) : Prop where
  argv : s'.argv.length = e.argCount s.argv.length
  body : ∀ fuel,
    (Accessing.scanBody pid exitStatus line fuel s).result = some (true, s') ∧
    (Always P (Accessing.scanBody pid exitStatus line fuel s) ↔
      ∀ a ∈ e.stores pid exitStatus s.arg.length s.argv.length, P a)

/-- The path is taken, and then blanks are looked for behind the terminator. -/
structure RunsOn (e : Element) (r : Redirection) : Prop where
  body : ∃ enough, ∀ fuel, enough ≤ fuel →
    (Accessing.scanBody pid exitStatus line fuel s).result
      = (skipBlanks line fuel (line.strlen + 1)).map (fun i =>
          (false, { s with i := i, redirections := s.redirections ++ [r] })) ∧
    (Always P (Accessing.scanBody pid exitStatus line fuel s) ↔
      (∀ a ∈ e.stores pid exitStatus s.arg.length s.argv.length, P a) ∧
        Always P (Accessing.skipBlanks line fuel (line.strlen + 1)))

/-- What an iteration does with an element; the delimiter and the text are those behind it. -/
inductive Does : Element → Char → CString → Prop
  | takes {e : Element} {delim : Char} {suf : CString}
      (h : ∃ s', Takes P pid exitStatus line s e delim suf s') (hends : ∀ path, e ≠ .runsOut path) :
      Does e delim suf
  | leaves {copied : Bool} {delim : Char}
      (h : ∃ s', Leaves P pid exitStatus line s (.last copied) s') : Does (.last copied) delim []
  | runsOn {path : CString} {delim : Char}
      (h : ∃ r, RunsOn P pid exitStatus line s (.runsOut path) r) : Does (.runsOut path) delim []

end iteration

/-- The character is none that ends an argument, opens a quote, or is the last one. -/
structure Inner (delim c : Char) (suf : CString) : Prop where
  notDelim : ¬isDelim c delim = true
  more : suf ≠ []
  notQuote : ¬((c = '"' ∨ c = '\'') ∧ delim = ' ')

/-- The character is the first one of `$$` or `$?`, and not in single quotes. -/
def Marked (delim c : Char) (suf : CString) : Prop :=
  delim ≠ '\'' ∧ c = '$' ∧ (suf.headD '\x00' = '$' ∨ suf.headD '\x00' = '?')

instance (delim c : Char) (suf : CString) : Decidable (Marked delim c suf) := by
  unfold Marked
  infer_instance

theorem result_atMark_at (h : line.At s.i (c :: suf)) :
    (Accessing.atMark line s).result = some (decide (Marked s.delim c suf)) := by
  have hget : line.get s.i = c := h.get
  have hnext : line.get (s.i + 1) = suf.headD '\x00' := h.next.get
  rw [Accessing.result_atMark, hget, hnext]
  rfl

/-- What becomes of the scan when `process_redirection` has returned. -/
def Scan.redirected (s : Scan) (c : Char) : Option Redirection × Nat → Bool × Scan
  | (none, _) => (false, { s with arg := s.arg ++ [c], i := s.i + 1 })
  | (some r, i) => (false, { s with i := i, redirections := s.redirections ++ [r] })

section iterations

variable {P : Access → Prop} (hread : ∀ k, k ≤ line.strlen → P (.read k))

include hread

/-- An iteration begins with a look at the character. -/
theorem always_scanBody_get {α : Type} {f : Char → Traced Access α} (h : line.At s.i (c :: suf)) :
    Always P (Accessing.get line s.i >>= f) ↔ Always P (f c) := by
  have hget : line.get s.i = c := h.get
  have hstrlen := h.strlen
  rw [List.length_cons] at hstrlen
  rw [always_bind_of_result (Accessing.result_get line s.i), always_get, hget]
  exact and_iff_right (hread s.i (by omega))

theorem does_ends (h : line.At s.i (c :: suf)) (hdelim : isDelim c s.delim = true)
    (hquote : s.delim = ' ' ∨ s.delim = '\'' ∨ s.delim = '"') :
    Does P pid exitStatus line s .ends ' ' (suf.dropWhile isBlank) := by
  have hstrlen := h.strlen
  rw [List.length_cons] at hstrlen
  have hlength : (suf.takeWhile isBlank).length ≤ suf.length :=
    (List.takeWhile_prefix isBlank).length_le
  have hat : line.At s.i (c :: (suf.takeWhile isBlank ++ suf.dropWhile isBlank)) := by
    rwa [List.takeWhile_append_dropWhile]
  refine .takes ⟨{ s.endArg with
      i := s.i + 1 + (suf.takeWhile isBlank).length
      arg := []
      delim := ' ' }, h.next.dropBlanks, rfl, rfl, ?_, suf.length + 1, fun fuel hfuel => ⟨?_, ?_⟩⟩
    (by simp)
  · exact List.length_append
  · rw [Accessing.result_scanBody]
    exact scanBody_delim hat hdelim hquote (blanks_takeWhile suf) (stops_dropWhile suf) (by omega)
  · unfold Accessing.scanBody
    rw [always_scanBody_get hread h, if_pos hdelim, always_bind_of_result (show _ = some _ from rfl),
      always_endArg, always_bind_of_result
        ((Accessing.result_skipBlanks ..).trans (skipBlanks_front h.next (by omega)))]
    unfold Element.stores
    rw [List.forall_mem_cons, List.forall_mem_singleton]
    exact and_iff_left ⟨always_skipBlanks hread (by omega), always_pure _⟩

theorem does_last (h : line.At s.i [c]) (hdelim : isDelim c s.delim = false) (delim : Char) :
    Does P pid exitStatus line s (.last (s.delim = ' ')) delim [] := by
  have hget : line.get s.i = c := h.get
  have hstrlen := h.strlen
  rw [List.length_singleton] at hstrlen
  have hlast : s.i = line.strlen - 1 := by omega
  have hnot : ¬isDelim c s.delim = true := by
    rw [hdelim]
    decide
  refine .leaves ⟨{ s with arg := if s.delim = ' ' then s.arg ++ [c] else s.arg }.endArg,
    List.length_append, fun fuel => ⟨?_, ?_⟩⟩
  · rw [Accessing.result_scanBody]
    unfold scanBody
    dsimp only
    rw [hget, if_neg hnot, if_pos hlast]
  · unfold Accessing.scanBody
    rw [always_scanBody_get hread h, if_neg hnot, if_pos hlast,
      always_bind_of_result (result_emit _), always_emit,
      always_bind_of_result (show _ = some _ from rfl), always_endArg]
    unfold Element.stores
    by_cases hspace : s.delim = ' '
    · simp [hspace, always_pure]
    · simp [hspace, always_pure]

theorem does_opens (h : line.At s.i (c :: suf)) (hmore : suf ≠ []) (hdelim : s.delim = ' ')
    (hquote : c = '"' ∨ c = '\'') : Does P pid exitStatus line s .opens c suf := by
  have hstrlen := h.strlen
  have hpos := List.length_pos_of_ne_nil hmore
  rw [List.length_cons] at hstrlen
  have hnot : ¬isDelim c s.delim = true := by
    rw [hdelim]
    rcases hquote with rfl | rfl
    · decide
    · decide
  refine .takes ⟨{ s with delim := c, i := s.i + 1 }, h.next, rfl, rfl, rfl, 0,
    fun fuel _ => ⟨?_, ?_⟩⟩ (by simp)
  · rw [Accessing.result_scanBody]
    exact scanBody_quote h hmore hdelim (Or.symm hquote) fuel
  · unfold Accessing.scanBody
    rw [always_scanBody_get hread h, if_neg hnot, if_neg (by omega), if_pos ⟨hquote, hdelim⟩]
    exact iff_of_true (always_pure _) (fun _ ha => absurd ha List.not_mem_nil)

theorem always_scanBody_marked (h : line.At s.i (c :: suf)) (hinner : Inner s.delim c suf)
    (hmarked : Marked s.delim c suf) :
    Always P (Accessing.scanBody pid exitStatus line fuel s) ↔
      Always P (Accessing.expand pid exitStatus line s) := by
  have hstrlen := h.strlen
  have hpos := List.length_pos_of_ne_nil hinner.more
  rw [List.length_cons] at hstrlen
  unfold Accessing.scanBody
  rw [always_scanBody_get hread h, if_neg hinner.notDelim, if_neg (by omega), if_neg hinner.notQuote,
    always_bind_of_result (result_atMark_at h), if_pos (decide_eq_true hmarked)]
  exact and_iff_right (always_atMark hread (by omega))

theorem does_mark (h : line.At s.i (c :: suf)) (hinner : Inner s.delim c suf)
    (hmarked : Marked s.delim c suf) :
    Does P pid exitStatus line s (.mark (suf.headD '\x00') (suf.tail = [])) s.delim suf.tail := by
  have hget : line.get s.i = c := h.get
  have hnext : line.get (s.i + 1) = suf.headD '\x00' := h.next.get
  obtain ⟨d, rest, rfl⟩ := List.exists_cons_of_ne_nil hinner.more
  have hstrlen := h.strlen
  rw [List.length_cons, List.length_cons] at hstrlen
  rw [List.headD_cons] at hnext ⊢
  rw [List.tail_cons]
  have hfinal : line.strlen ≤ s.i + 2 ↔ rest = [] := by
    rw [← List.length_eq_zero_iff]
    omega
  let s₁ : Scan := { s with arg := s.arg ++ markText pid exitStatus d, i := s.i + 2 }
  refine .takes ⟨if line.strlen ≤ s.i + 2 then s₁.endArg else s₁, ?_, ?_, ?_, ?_, 0,
    fun fuel _ => ⟨?_, ?_⟩⟩ (by simp)
  · have hbehind : line.At (s.i + 2) rest := h.next.next
    split
    · exact hbehind
    · exact hbehind
  · split
    · rfl
    · rfl
  · split
    · exact List.length_append
    · exact List.length_append
  · simp only [hfinal, Element.argCount, decide_eq_true_eq]
    split
    · exact List.length_append
    · rfl
  · have hmarked' : s.delim ≠ '\'' ∧ c = '$' ∧ (d = '$' ∨ d = '?') := hmarked
    rw [Accessing.result_scanBody]
    unfold scanBody
    dsimp only
    rw [hget, hnext, if_neg hinner.notDelim, if_neg (by omega), if_neg hinner.notQuote,
      if_pos hmarked']
    rfl
  · rw [always_scanBody_marked hread h hinner hmarked]
    unfold Accessing.expand
    rw [always_bind_of_result (Accessing.result_get line (s.i + 1)), always_get, hnext,
      and_iff_right (hread (s.i + 1) (by omega)), always_bind_of_result (result_emit _),
      always_emit]
    unfold Element.stores
    rw [List.forall_mem_append]
    refine and_congr_right fun _ => ?_
    by_cases hrest : rest = []
    · rw [if_pos (decide_eq_true hrest), if_pos (hfinal.mpr hrest),
        always_bind_of_result (show _ = some _ from rfl), always_endArg, List.forall_mem_cons,
        List.forall_mem_singleton, List.length_append]
      exact and_iff_left (always_pure _)
    · rw [if_neg (fun hle => hrest (hfinal.mp hle)),
        if_neg (show ¬decide (rest = []) = true by simpa using hrest)]
      exact iff_of_true (always_pure _) (fun _ ha => absurd ha List.not_mem_nil)

/-- Anything else is up to `process_redirection`. -/
theorem always_scanBody_other (h : line.At s.i (c :: suf)) (hinner : Inner s.delim c suf)
    (hmarked : ¬Marked s.delim c suf) :
    Always P (Accessing.scanBody pid exitStatus line fuel s) ↔
      Always P (Accessing.processRedirection line fuel s.i) ∧
        ∀ found, (Accessing.processRedirection line fuel s.i).result = some found →
          found.1 = none → P (.arg s.arg.length) := by
  have hstrlen := h.strlen
  have hpos := List.length_pos_of_ne_nil hinner.more
  rw [List.length_cons] at hstrlen
  unfold Accessing.scanBody
  rw [always_scanBody_get hread h, if_neg hinner.notDelim, if_neg (by omega), if_neg hinner.notQuote,
    always_bind_of_result (result_atMark_at h), if_neg (by simpa using hmarked),
    and_iff_right (always_atMark hread (by omega)), always_bind_iff]
  refine and_congr_right fun _ => forall_congr' fun found => imp_congr_right fun _ => ?_
  obtain ⟨_ | r, i⟩ := found
  · dsimp only
    rw [always_bind_of_result (result_emit _), always_emit, List.forall_mem_singleton,
      and_iff_left (always_pure _)]
    exact ⟨fun harg _ => harg, fun harg => harg rfl⟩
  · exact iff_of_true (always_pure _) (fun hnone => absurd hnone (by simp))

omit hread in
theorem scanBody_other (h : line.At s.i (c :: suf)) (hinner : Inner s.delim c suf)
    (hmarked : ¬Marked s.delim c suf) :
    (Accessing.scanBody pid exitStatus line fuel s).result
      = (Accessing.processRedirection line fuel s.i).result.map (s.redirected c) := by
  have hget : line.get s.i = c := h.get
  have hnext : line.get (s.i + 1) = suf.headD '\x00' := h.next.get
  have hstrlen := h.strlen
  have hpos := List.length_pos_of_ne_nil hinner.more
  rw [List.length_cons] at hstrlen
  have hmarked' : ¬(s.delim ≠ '\'' ∧ c = '$' ∧
    (suf.headD '\x00' = '$' ∨ suf.headD '\x00' = '?')) := hmarked
  rw [Accessing.result_scanBody, Accessing.result_processRedirection]
  unfold scanBody
  dsimp only
  rw [hget, hnext, if_neg hinner.notDelim, if_neg (by omega), if_neg hinner.notQuote,
    if_neg hmarked']
  refine congrArg (Option.map · _) (funext fun found => ?_)
  obtain ⟨_ | r, i⟩ := found
  · rfl
  · rfl

theorem does_char (h : line.At s.i (c :: suf)) (hinner : Inner s.delim c suf)
    (hmarked : ¬Marked s.delim c suf) (hop : operator? c suf = none) :
    Does P pid exitStatus line s .char s.delim suf := by
  refine .takes ⟨{ s with arg := s.arg ++ [c], i := s.i + 1 }, h.next, rfl, List.length_append,
    rfl, 0, fun fuel _ => ?_⟩ (by simp)
  obtain ⟨hresult, halways⟩ := processRedirection_char hread h hinner.more hop fuel
  constructor
  · rw [scanBody_other h hinner hmarked, hresult]
    rfl
  · rw [always_scanBody_other hread h hinner hmarked, and_iff_right halways, hresult]
    unfold Element.stores
    rw [List.forall_mem_singleton]
    constructor
    · intro hall
      exact hall _ rfl rfl
    · intro harg found _ _
      exact harg

/-- An operator is followed by its path and, where the path ends, by the loop over blanks. -/
theorem scanBody_operator {op : Operator} (h : line.At s.i (c :: suf))
    (hinner : Inner s.delim c suf) (hmarked : ¬Marked s.delim c suf)
    (hop : operator? c suf = some (op, tail)) :
    ∃ k, line.At (k + 1) tail ∧ ∀ fuel, tail.length + 1 < fuel →
      (Accessing.scanBody pid exitStatus line fuel s).result
        = (skipBlanks line fuel ((target tail).stop (k + 1) + 1)).map (fun i =>
            (false, { s with
              i := i
              redirections := s.redirections ++ [op.redirection (target tail).path] })) ∧
      (Always P (Accessing.scanBody pid exitStatus line fuel s) ↔
        (∀ a ∈ (List.range ((target tail).path.length + 1)).map Access.path, P a) ∧
          Always P (Accessing.skipBlanks line fuel ((target tail).stop (k + 1) + 1))) := by
  obtain ⟨k, hk, hprocess⟩ := processRedirection_operator hread h hinner.more hop
  refine ⟨k, hk, fun fuel hfuel => ⟨?_, ?_⟩⟩
  · rw [scanBody_other h hinner hmarked, (hprocess fuel).1, Accessing.result_redirect,
      getPath_target hk hfuel, Option.bind_some, Option.map_map]
    rfl
  · rw [always_scanBody_other hread h hinner hmarked, (hprocess fuel).1, (hprocess fuel).2,
      always_redirect hread hk hfuel, Accessing.result_redirect]
    refine and_iff_left ?_
    intro found hfound hnone
    obtain ⟨path, -, hrest⟩ := Option.bind_eq_some_iff.mp hfound
    obtain ⟨i, -, heq⟩ := Option.map_eq_some_iff.mp hrest
    rw [← heq] at hnone
    exact absurd hnone (by simp)

theorem does_redirect {op : Operator} (h : line.At s.i (c :: suf)) (hinner : Inner s.delim c suf)
    (hmarked : ¬Marked s.delim c suf) (hop : operator? c suf = some (op, tail)) :
    Does P pid exitStatus line s (target tail).element.1 s.delim (target tail).element.2 := by
  obtain ⟨k, hk, hbody⟩ := scanBody_operator hread h hinner hmarked hop
  have hstop := Target.at_stop hk
  unfold Target.element
  cases hrest : (target tail).rest with
  | nil =>
      rw [hrest] at hstop
      have hstrlen := hstop.strlen
      rw [List.length_nil, Nat.add_zero] at hstrlen
      refine .runsOn ⟨op.redirection (target tail).path, tail.length + 2, fun fuel hfuel => ?_⟩
      rw [hstrlen]
      exact hbody fuel (by omega)
  | cons b behind =>
      rw [hrest] at hstop
      have hstrlen := hstop.strlen
      rw [List.length_cons] at hstrlen
      refine .takes ⟨{ s with
          i := (target tail).stop (k + 1) + 1 + (behind.takeWhile isBlank).length
          redirections := s.redirections ++ [op.redirection (target tail).path] },
        hstop.next.dropBlanks, rfl, rfl, rfl, tail.length + behind.length + 2,
        fun fuel hfuel => ?_⟩ (by simp)
      obtain ⟨hresult, halways⟩ := hbody fuel (by omega)
      refine ⟨?_, ?_⟩
      · rw [hresult, skipBlanks_front hstop.next (by omega), Option.map_some]
      · rw [halways]
        exact and_iff_left (always_skipBlanks hread (by omega))

omit hread in
theorem element_delim (delim c : Char) (suf : CString)
    (hquote : delim = ' ' ∨ delim = '\'' ∨ delim = '"') :
    (element delim c suf).2.1 = ' ' ∨ (element delim c suf).2.1 = '\'' ∨
      (element delim c suf).2.1 = '"' := by
  unfold element
  split_ifs with hdelim hlast hopens hmarked
  · exact Or.inl rfl
  · exact hquote
  · exact Or.inr (Or.symm hopens.1)
  · exact hquote
  · split
    · exact hquote
    · exact hquote

/-- **One iteration takes one element.** -/
theorem scanBody_element (h : line.At s.i (c :: suf))
    (hquote : s.delim = ' ' ∨ s.delim = '\'' ∨ s.delim = '"') :
    Does P pid exitStatus line s (element s.delim c suf).1 (element s.delim c suf).2.1
      (element s.delim c suf).2.2 := by
  unfold element
  split_ifs with hdelim hlast hopens hmarked
  · exact does_ends hread h hdelim hquote
  · rw [hlast] at h
    exact does_last hread h (by simpa using hdelim) _
  · exact does_opens hread h hlast hopens.2 hopens.1
  · exact does_mark hread h ⟨hdelim, hlast, hopens⟩ hmarked
  · split
    · rename_i hop
      exact does_char hread h ⟨hdelim, hlast, hopens⟩ hmarked hop
    · rename_i op tail hop
      exact does_redirect hread h ⟨hdelim, hlast, hopens⟩ hmarked hop

end iterations

end Shell
