/-
`get_cmd_line` on the array `cmdline`.

`Shell.Input` has the string that is in the array.  Here it is the array itself, as memory
by the index, and every index that the code of the function reads or writes is noted, so
that one can ask whether it stays inside.  What stands in front of the array may be
anything, and with blanks there the last loop goes on; it takes a number of iterations and
is `none` when it does not suffice.  `fgets` and `strlen` begin at index 0.
-/
import KernelProgramming.Shell.Input
import KernelProgramming.Lib.Memory

namespace Shell

open Memory

/-- The array `cmdline`, and the indices that have been used. -/
structure Buffer where
  mem : Int → Char
  used : List Int

namespace Buffer

/-- `cmdline[i]` is read. -/
def read (b : Buffer) (i : Int) : Char × Buffer := (b.mem i, { b with used := i :: b.used })

/-- `cmdline[i] = c;` -/
def write (b : Buffer) (i : Int) (c : Char) : Buffer :=
  { mem := Function.update b.mem i c, used := i :: b.used }

/-- The array after `fgets` has stored what it has read. -/
def filled (b : Buffer) (piece : CString) : Buffer :=
  { b with mem := store b.mem 0 (piece ++ ['\x00']) }

/-- The string in the array. -/
def text (b : Buffer) : CString := string '\x00' b.mem 0 maxCmdlineLen

end Buffer

/-- The loop over the blanks at the front, which is left when `i` is `n`: the variable `i` after
it.  The number is `n - i`. -/
def skipFront (b : Buffer) (i : Nat) : Nat → Nat × Buffer
  | 0 => (i, b)
  | rest + 1 =>
      let (c, b) := b.read i
      if isBlank c then skipFront b (i + 1) rest else (i, b)

/-- `while (cmdline[--n] == ' ' || cmdline[--n] == '\t') cmdline[n] = '\0';` -/
def removeTrailing : Nat → Buffer → Int → Option Buffer
  | 0, _, _ => none
  | fuel + 1, b, n =>
      let (c, b) := b.read (n - 1)
      if c = ' ' then removeTrailing fuel (b.write (n - 1) '\x00') (n - 1)
      else
        let (c, b) := b.read (n - 2)
        if c = '\t' then removeTrailing fuel (b.write (n - 2) '\x00') (n - 2)
        else some b

/-- `get_cmd_line` from `cmdline[--n] = '\0';` on, with the new `n`. -/
def cutLine (b : Buffer) (n : Int) (fuel : Nat) : Option (Int × Buffer) :=
  let (i, b) := skipFront (b.write n '\x00') 0 n.toNat
  if (i : Int) = n then some (-1, b) else (removeTrailing fuel b n).map fun b => (0, b)

/-- `get_cmd_line`: what it returns, the array, and the rest of the input. -/
def getCmdLineIn (b : Buffer) (stdin : CString) (fuel : Nat) : Option (Int × Buffer × CString) :=
  let (piece, stdin) := fgets (maxCmdlineLen - 1) stdin
  if piece = [] then some (-1, b, stdin)
  else
    let b := b.filled piece
    (cutLine b (b.text.length - 1) fuel).map fun (value, b) => (value, b, stdin)

end Shell
