/-
`exec_job` up to its loop: which commands a line is cut into.

The line is cut in place.  The `&` at its end and every `|` are overwritten with zeros,
and `cmdlines` has the addresses of the strings that come about.  Address 0 is where
`cmdline` points to, so what the code looks at in front of it has a negative address.

The loops are given a number of iterations and are `none` when it does not suffice; the
array `cmdlines` has room for 128 addresses, and a line with more pipes than that is
`none` as well.  `exec_internal_cmd` copies its command into an array that has no room
for the terminator; what the terminator overwrites is not looked at again.
-/
import KernelProgramming.Shell.Command
import KernelProgramming.Shell.Input
import KernelProgramming.Lib.Memory

namespace Shell

open Memory

/-- `MAX_PIPE`. -/
def maxPipe : Nat := 128

/-- The memory `cmdline` points to.  `front` is what stands in front of the string, from its
start backwards. -/
def Line.memory (line : Line) (front : Nat → Char) : Int → Char
  | .ofNat i => line.get i
  | .negSucc k => front k

/-- The string at `p`, with what stands behind it. -/
def lineAt (mem : Int → Char) (p : Int) (n : Nat) : Line where
  text := string '\x00' mem p n
  noNul := nul_notMem_string _ _ _ _
  rest k := mem (p + (string '\x00' mem p n).length + 1 + k)

/-! ### The split -/

/-- The variables `c` and `i` after the loop that goes back over the blanks at the end; the
argument is `i + 1` before it.  The loop does not go beyond the first character. -/
def goBack (mem : Int → Char) : Nat → Char × Int
  | 0 => (mem (-1), if isBlank (mem (-1)) then -2 else -1)
  | 1 => (mem 0, if isBlank (mem 0) then -1 else 0)
  | i + 2 => if isBlank (mem (i + 1)) then goBack mem (i + 1) else (mem (i + 1), i + 1)

/-- The memory, and `async`, when the end has been looked at. -/
def checkAsync (mem : Int → Char) (strlen : Nat) : (Int → Char) × Bool :=
  let (c, i) := goBack mem strlen
  if c = '&' then (Function.update mem i '\x00', true) else (mem, false)

/-- `while (*tmp == ' ' || *tmp == '\t') tmp++;` -/
def skipSpaces (mem : Int → Char) : Nat → Int → Option Int
  | 0, _ => none
  | fuel + 1, tmp => if isBlank (mem tmp) then skipSpaces mem fuel (tmp + 1) else some tmp

/-- The loop over the pipes: the memory and `cmdlines` after it.  No string is longer than
`n`. -/
def splitLoop (n : Nat) : Nat → (Int → Char) → List Int → Int →
    Option ((Int → Char) × List Int)
  | 0, _, _, _ => none
  | fuel + 1, mem, cmdlines, tmp =>
      if cmdlines.length < maxPipe then
        match strchr '\x00' '|' mem tmp (n + 1) with
        | none => some (mem, cmdlines ++ [tmp])
        | some p =>
            let mem := Function.update mem p '\x00'
            (skipSpaces mem (fuel + 1) (p + 1)).bind fun tmp' =>
              splitLoop n fuel mem (cmdlines ++ [tmp]) tmp'
      else none

/-- The commands of the line, and `async`. -/
def split (line : Line) (front : Nat → Char) (fuel : Nat) : Option (List Line × Bool) :=
  let (mem, async) := checkAsync (line.memory front) line.strlen
  (splitLoop line.strlen fuel mem [] 0).map fun (mem, cmdlines) =>
    (cmdlines.map fun p => lineAt mem p (line.strlen + 1), async)

/-! ### Built-ins -/

/-- What `exec_job` does. -/
inductive Action
  | exit
  | jobs
  | cd (argv : List CString)
  | bg (argv : List CString)
  | fg (argv : List CString)
  | crash
  | launch (cmds : List Line) (async : Bool)

/-- The words that `strtok` finds between the spaces. -/
def strtok (cmd : CString) : List CString := (cmd.splitOn ' ').filter (· ≠ [])

/-- `exec_internal_cmd`: what is done, or nothing when it returns 0.  Without a word there is no
`argv[0]` to compare with. -/
def execInternalCmd (cmd : CString) : Option Action :=
  if cmd = "exit".toList ∨ cmd = "exit &".toList then some .exit
  else if cmd = "jobs".toList then some .jobs
  else
    match strtok cmd with
    | [] => some .crash
    | word :: args =>
        if word = "cd".toList then some (.cd (word :: args))
        else if word = "bg".toList then some (.bg (word :: args))
        else if word = "fg".toList then some (.fg (word :: args))
        else none

/-- What is done with the commands: a single one may be a built-in. -/
def actionFor (cmds : List Line) (async : Bool) : Action :=
  match cmds with
  | [cmd] => (execInternalCmd cmd.text).getD (.launch [cmd] async)
  | cmds => .launch cmds async

/-- `exec_job` up to the loop that starts the commands. -/
def dispatch (line : Line) (front : Nat → Char) (fuel : Nat) : Option Action :=
  (split line front fuel).map fun (cmds, async) => actionFor cmds async

end Shell
