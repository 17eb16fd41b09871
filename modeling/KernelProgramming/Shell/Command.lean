/-
`process_cmd`: how a child of the shell reads its command.

The command is scanned from left to right, once.  Arguments, quotes, `$$` and `$?` are
dealt with on the way, and redirections are performed as they are met.  What is opened
and duplicated is listed; whether `open` succeeds is up to the environment.

The loops that skip blanks look for a character that is none, and do not look where the
string ends.  They take a number of iterations and are `none` when it does not suffice,
and so does the scan.  The buffers `arg`, `argv` and `path` are as large as need be.
-/
import KernelProgramming.Shell.Jobs

namespace Shell

/-- What `cmdline` points to: a string, its terminator, and whatever stands behind it. -/
structure Line where
  text : CString
  noNul : '\x00' ∉ text
  rest : Nat → Char

namespace Line

def strlen (line : Line) : Nat := line.text.length

/-- `cmdline[i]`. -/
def get (line : Line) (i : Nat) : Char :=
  if h : i < line.text.length then line.text[i]
  else if i = line.text.length then '\x00'
  else line.rest (i - line.text.length - 1)

/-- What `strncpy` makes of the `n` characters from `i` on. -/
def slice (line : Line) (i n : Nat) : CString :=
  ((List.range n).map fun k => line.get (i + k)).takeWhile (· ≠ '\x00')

end Line

/-- `is_delim`. -/
def isDelim (c delim : Char) : Bool := delim == c || (delim == ' ' && c == '\t')

/-- The first position from `i` on where there is no blank. -/
def skipBlanks (line : Line) : Nat → Nat → Option Nat
  | 0, _ => none
  | fuel + 1, i => if isDelim (line.get i) ' ' then skipBlanks line fuel (i + 1) else some i

/-! ### Redirections -/

inductive Redirection
  | output (path : CString) (append : Bool)
  | outputAndError (path : CString)
  | input (path : CString)
  deriving DecidableEq, Repr

/-- The second loop of `get_path`. -/
def pathEnd (line : Line) : Nat → Nat → Option Nat
  | 0, _ => none
  | fuel + 1, i =>
      if i < line.strlen then
        if isDelim (line.get (i + 1)) ' ' then some (i + 1) else pathEnd line fuel (i + 1)
      else some i

/-- `get_path`: the path, and where it ends. -/
def getPath (line : Line) (fuel i : Nat) : Option (CString × Nat) :=
  (skipBlanks line fuel (i + 1)).bind fun j =>
    (pathEnd line fuel j).map fun i => (line.slice j (i - j), i)

/-- `process_redirection`: the redirection, if there is one, and the new position. -/
def processRedirection (line : Line) (fuel i : Nat) : Option (Option Redirection × Nat) :=
  let c := line.get i
  let redirect (kind : CString → Redirection) (i : Nat) : Option (Option Redirection × Nat) :=
    (getPath line fuel i).bind fun (path, i) =>
      (skipBlanks line fuel (i + 1)).map fun i => (some (kind path), i)
  if c = '>' then
    if line.get (i + 1) = '>' then redirect (.output · true) (i + 1)
    else redirect (.output · false) i
  else if c = '&' ∧ line.get (i + 1) = '>' then redirect .outputAndError (i + 1)
  else if c = '<' then redirect .input i
  else some (none, i)

/-! ### The scan -/

/-- What `sprintf` writes for `%d`. -/
def decimal : Int → CString
  | .ofNat n => Nat.toDigits 10 n
  | .negSucc n => '-' :: Nat.toDigits 10 (n + 1)

/-- The variables of the scan; `arg` is what has been written of the current argument. -/
structure Scan where
  i : Nat
  arg : CString
  argv : List CString
  delim : Char
  redirections : List Redirection
  deriving DecidableEq, Repr

namespace Scan

/-- `arg[j] = '\0'; argv[argc++] = arg;` -/
def endArg (s : Scan) : Scan := { s with argv := s.argv ++ [s.arg] }

end Scan

/-- The body of the `while` loop: whether the loop is left, and the variables.  `pid` is what
`getpid` returns, and `exitStatus` is the global. -/
def scanBody (pid exitStatus : Int) (line : Line) (fuel : Nat) (s : Scan) :
    Option (Bool × Scan) :=
  let c := line.get s.i
  if isDelim c s.delim then
    (skipBlanks line fuel (s.i + 1)).map fun i =>
      (false,
        { s.endArg with
          i := i
          arg := []
          delim := if s.delim = '\'' ∨ s.delim = '"' then ' ' else s.delim })
  else if s.i = line.strlen - 1 then
    some (true, { s with arg := if s.delim = ' ' then s.arg ++ [c] else s.arg }.endArg)
  else if (c = '"' ∨ c = '\'') ∧ s.delim = ' ' then
    some (false, { s with delim := c, i := s.i + 1 })
  else if s.delim ≠ '\'' ∧ c = '$' ∧ (line.get (s.i + 1) = '$' ∨ line.get (s.i + 1) = '?') then
    let value := if line.get (s.i + 1) = '$' then pid else exitStatus
    let s := { s with arg := s.arg ++ decimal value, i := s.i + 2 }
    some (false, if line.strlen ≤ s.i then s.endArg else s)
  else
    (processRedirection line fuel s.i).map fun (redirection, i) =>
      match redirection with
      | none => (false, { s with arg := s.arg ++ [c], i := s.i + 1 })
      | some r => (false, { s with i := i, redirections := s.redirections ++ [r] })

def scanLoop (pid exitStatus : Int) (line : Line) : Nat → Scan → Option Scan
  | 0, _ => none
  | fuel + 1, s =>
      if s.i < line.strlen then
        (scanBody pid exitStatus line (fuel + 1) s).bind fun (left, s) =>
          if left then some s else scanLoop pid exitStatus line fuel s
      else some s

def Scan.start (i : Nat) : Scan where
  i := i
  arg := []
  argv := []
  delim := ' '
  redirections := []

/-- `process_cmd` up to the `execvpe`: its `argv`, and the redirections before it. -/
def processCmd (pid exitStatus : Int) (line : Line) (fuel : Nat) :
    Option (List CString × List Redirection) :=
  (skipBlanks line fuel 0).bind fun i =>
    (scanLoop pid exitStatus line fuel (Scan.start i)).map fun s => (s.argv, s.redirections)

/-! ### The globals -/

/-- The shell with its global `exit_status`. -/
structure Session where
  sh : Sh
  exitStatus : Int

/-- One operation of the shell.  No function assigns to `exit_status`. -/
def Session.step (s : Session) (op : Op) : Option Session :=
  (Shell.step s.sh op).map fun sh => { s with sh := sh }

/-- A global without an initial value is 0. -/
def Session.start : Session where
  sh := Shell.start
  exitStatus := 0

end Shell
