/-
`get_cmd_line`: how the shell reads a line, and how `exec_job` looks at its end.

Standard input is a finite list of characters.  It is read in pieces of at most 1023
characters, which `fgets` ends behind a newline.  The last character of a piece is cut
off, whatever it is.  In front of the array `cmdline`, where the code may look when the
string is short, there is no space, no tab and no `&`.
-/
import KernelProgramming.Shell.Jobs
import Mathlib.Data.List.DropRight

namespace Shell

/-- `MAX_CMDLINE_LEN`. -/
def maxCmdlineLen : Nat := 1024

/-- The characters `fgets` stores when there is room for `n`, and the rest of the input. -/
def fgets : Nat → CString → CString × CString
  | 0, stdin => ([], stdin)
  | _, [] => ([], [])
  | n + 1, c :: stdin =>
      if c = '\n' then ([c], stdin) else (c :: (fgets n stdin).1, (fgets n stdin).2)

def isBlank (c : Char) : Bool := c = ' ' || c = '\t'

/-- The loop that removes trailing spaces; `n` is the variable.  Where the first test fails the
second one looks at the character in front. -/
def trimLoop : Nat → CString → CString
  | 0, cmdline => cmdline
  | 1, cmdline => if cmdline[0]? = some ' ' then cmdline.take 0 else cmdline
  | n + 2, cmdline =>
      if cmdline[n + 1]? = some ' ' then trimLoop (n + 1) (cmdline.take (n + 1))
      else if cmdline[n]? = some '\t' then trimLoop n (cmdline.take n)
      else cmdline

/-- `get_cmd_line` on what `fgets` has stored: the string in `cmdline`, or nothing if it returns
-1.  When the piece starts with a zero, `n` is -1 after the cut and the line does not count as
empty. -/
def cutPiece (piece : CString) : Option CString :=
  if piece = [] then none
  else
    let cmdline := piece.takeWhile (· ≠ '\x00')
    if cmdline = [] then some []
    else
      let cmdline := cmdline.dropLast
      if cmdline.all isBlank then none else some (trimLoop cmdline.length cmdline)

/-- `get_cmd_line`, and the rest of the input. -/
def getCmdLine (stdin : CString) : Option CString × CString :=
  let (piece, stdin) := fgets (maxCmdlineLen - 1) stdin
  (cutPiece piece, stdin)

/-- `exec_job` looks for a `&` at the end: what is left of `cmdline`, and `async`. -/
def cutAsync (cmdline : CString) : CString × Bool :=
  let upTo := cmdline.rdropWhile isBlank
  if upTo.getLast? = some '&' then (upTo.dropLast, true) else (cmdline, false)

end Shell
