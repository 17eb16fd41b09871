/-
Which cells `process_cmd` and `exec_job` use.

These are the functions of `Shell/Command.lean` and `Shell/Exec.lean` once more, with
every `cmdline[i]` that is read and every store into one of the arrays noted, in the
order of the source.  The arrays have no bounds here, so that one can ask whether the
code stays inside them.  `strlen` reads up to the terminator and is not noted.
-/
import KernelProgramming.Lib.Traced
import KernelProgramming.Shell.Exec

namespace Shell

/-- `cmdline[i]` is read, or a cell is stored to: of the string `arg` or `path`, of the array
`argv` of `process_cmd`, of `cmdlines`, or of the array `cmd` of `exec_internal_cmd`, which has a
size of its own. -/
inductive Access
  | read (i : Nat)
  | arg (j : Nat)
  | argv (n : Nat)
  | path (k : Nat)
  | cmdlines (n : Nat)
  | cmd (size k : Nat)
  deriving DecidableEq, Repr

/-- `MAX_ARG_LEN`. -/
def maxArgLen : Nat := 512

/-- `MAX_ARGC`. -/
def maxArgc : Nat := 128

/-- `PATH_MAX`. -/
def pathMax : Nat := 128

/-- What is stored is stored inside the array. -/
def Access.Inside : Access → Prop
  | .read _ => True
  | .arg j => j < maxArgLen
  | .argv n => n < maxArgc
  | .path k => k < pathMax
  | .cmdlines n => n < maxPipe
  | .cmd size k => k < size

namespace Accessing

open Traced Memory

/-- `cmdline[i]`. -/
def get (line : Line) (i : Nat) : Traced Access Char := ⟨some (line.get i), [.read i]⟩

def skipBlanks (line : Line) : Nat → Nat → Traced Access Nat
  | 0, _ => stuck
  | fuel + 1, i => do
      let c ← get line i
      if isDelim c ' ' then skipBlanks line fuel (i + 1) else pure i

/-! ### Redirections -/

def pathEnd (line : Line) : Nat → Nat → Traced Access Nat
  | 0, _ => stuck
  | fuel + 1, i =>
      if i < line.strlen then do
        let c ← get line (i + 1)
        if isDelim c ' ' then pure (i + 1) else pathEnd line fuel (i + 1)
      else pure i

/-- `strncpy(path, cmdline+j, n); path[n] = '\0';`.  It reads up to the first zero and fills all
of the `n` cells. -/
def copyPath (line : Line) (j n : Nat) : Traced Access CString := do
  emit ((List.range (min n ((line.slice j n).length + 1))).map fun k => .read (j + k))
  emit ((List.range (n + 1)).map .path)
  pure (line.slice j n)

def getPath (line : Line) (fuel i : Nat) : Traced Access (CString × Nat) := do
  let j ← skipBlanks line fuel (i + 1)
  let i ← pathEnd line fuel j
  let path ← copyPath line j (i - j)
  pure (path, i)

/-- What the branches of `process_redirection` have in common. -/
def redirect (line : Line) (fuel : Nat) (kind : CString → Redirection) (i : Nat) :
    Traced Access (Option Redirection × Nat) := do
  let found ← getPath line fuel i
  let i ← skipBlanks line fuel (found.2 + 1)
  pure (some (kind found.1), i)

def processRedirection (line : Line) (fuel i : Nat) :
    Traced Access (Option Redirection × Nat) := do
  let c ← get line i
  if c = '>' then do
    let d ← get line (i + 1)
    if d = '>' then redirect line fuel (.output · true) (i + 1)
    else redirect line fuel (.output · false) i
  else if c = '&' then do
    let d ← get line (i + 1)
    if d = '>' then redirect line fuel .outputAndError (i + 1) else pure (none, i)
  else if c = '<' then redirect line fuel .input i
  else pure (none, i)

/-! ### The scan -/

/-- `arg[j] = '\0'; argv[argc++] = arg;` -/
def endArg (s : Scan) : Traced Access Scan := do
  emit [.arg s.arg.length, .argv s.argv.length]
  pure s.endArg

/-- `delim != '\'' && cmdline[i] == '$'`, and `cmdline[i+1]` is `$` or `?`. -/
def atMark (line : Line) (s : Scan) : Traced Access Bool :=
  if s.delim = '\'' then pure false
  else do
    let c ← get line s.i
    if c = '$' then do
      let d ← get line (s.i + 1)
      if d = '$' then pure true
      else do
        let d ← get line (s.i + 1)
        pure (d = '?')
    else pure false

/-- `$$` or `$?`: `sprintf` writes the digits and a zero. -/
def expand (pid exitStatus : Int) (line : Line) (s : Scan) : Traced Access (Bool × Scan) := do
  let d ← get line (s.i + 1)
  let digits := decimal (if d = '$' then pid else exitStatus)
  emit ((List.range (digits.length + 1)).map fun k => .arg (s.arg.length + k))
  let s := { s with arg := s.arg ++ digits, i := s.i + 2 }
  if line.strlen ≤ s.i then do
    let s ← endArg s
    pure (false, s)
  else pure (false, s)

def scanBody (pid exitStatus : Int) (line : Line) (fuel : Nat) (s : Scan) :
    Traced Access (Bool × Scan) := do
  let c ← get line s.i
  if isDelim c s.delim then do
    let s' ← endArg s
    let i ← skipBlanks line fuel (s.i + 1)
    pure (false,
      { s' with
        i := i
        arg := []
        delim := if s.delim = '\'' ∨ s.delim = '"' then ' ' else s.delim })
  else if s.i = line.strlen - 1 then do
    emit (if s.delim = ' ' then [.arg s.arg.length] else [])
    let s ← endArg { s with arg := if s.delim = ' ' then s.arg ++ [c] else s.arg }
    pure (true, s)
  else if (c = '"' ∨ c = '\'') ∧ s.delim = ' ' then
    pure (false, { s with delim := c, i := s.i + 1 })
  else do
    let marked ← atMark line s
    if marked then expand pid exitStatus line s
    else do
      let found ← processRedirection line fuel s.i
      match found.1 with
      | none => do
          emit [.arg s.arg.length]
          pure (false, { s with arg := s.arg ++ [c], i := s.i + 1 })
      | some r => pure (false, { s with i := found.2, redirections := s.redirections ++ [r] })

def scanLoop (pid exitStatus : Int) (line : Line) : Nat → Scan → Traced Access Scan
  | 0, _ => stuck
  | fuel + 1, s =>
      if s.i < line.strlen then do
        let r ← scanBody pid exitStatus line (fuel + 1) s
        if r.1 then pure r.2 else scanLoop pid exitStatus line fuel r.2
      else pure s

/-- `process_cmd` up to the `execvpe`. -/
def processCmd (pid exitStatus : Int) (line : Line) (fuel : Nat) :
    Traced Access (List CString × List Redirection) := do
  let i ← skipBlanks line fuel 0
  let s ← scanLoop pid exitStatus line fuel (Scan.start i)
  emit [.argv s.argv.length]
  pure (s.argv, s.redirections)

/-! ### `exec_job` -/

/-- The loop over the pipes. -/
def splitLoop (n : Nat) : Nat → (Int → Char) → List Int → Int →
    Traced Access ((Int → Char) × List Int)
  | 0, _, _, _ => stuck
  | fuel + 1, mem, cmdlines, tmp => do
      emit [.cmdlines cmdlines.length]
      match strchr '\x00' '|' mem tmp (n + 1) with
      | none => pure (mem, cmdlines ++ [tmp])
      | some p =>
          let mem := Function.update mem p '\x00'
          match skipSpaces mem (fuel + 1) (p + 1) with
          | none => stuck
          | some tmp' => splitLoop n fuel mem (cmdlines ++ [tmp]) tmp'

/-- `char cmd[strlen(cmdline)]; strcpy(cmd, cmdline);` -/
def copyCmd (cmd : Line) : List Access := (List.range (cmd.strlen + 1)).map (.cmd cmd.strlen)

/-- What the children do with their commands; the `k`-th one has the pid `pids k`. -/
def children (pids : Nat → Int) (exitStatus : Int) (fuel : Nat) (cmds : List Line) : List Access :=
  cmds.zipIdx.flatMap fun (cmd, k) => (processCmd (pids k) exitStatus cmd fuel).trace

/-- `exec_job` with its children.  A command that is alone goes to `exec_internal_cmd` first. -/
def execJob (pids : Nat → Int) (exitStatus : Int) (line : Line) (front : Nat → Char)
    (fuel : Nat) : List Access :=
  let (mem, _) := checkAsync (line.memory front) line.strlen
  let r := splitLoop line.strlen fuel mem [] 0
  r.trace ++
    match r.result with
    | none => []
    | some (mem, cmdlines) =>
        match cmdlines.map fun p => lineAt mem p (line.strlen + 1) with
        | [cmd] =>
            copyCmd cmd ++
              match execInternalCmd cmd.text with
              | some _ => []
              | none => children pids exitStatus fuel [cmd]
        | cmds => children pids exitStatus fuel cmds

end Accessing

end Shell
