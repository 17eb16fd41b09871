/-
`myps.c`: reading `/proc/<pid>/stat`, and the table.

`stat` is one line, which `strtok` cuts at its spaces; the fields are told apart by
their number.  A variable that no field is stored in keeps what it held.  Storing
outside `name` is `none`.

A key of the table is an `unsigned long`.  The comparators subtract two of them as
`long long` and return the difference as an `int`, which keeps its low 32 bits.
`qsort` is the C library's.
-/
import KernelProgramming.Shell.Command
import KernelProgramming.Shell.Exec

namespace Ps

open Shell (CString strtok digits isSpace fgets decimal)

/-! ### The fields of `stat` -/

/-- `strtoul` to the base of 10. -/
def strtoul (str : CString) : Nat :=
  match str.dropWhile isSpace with
  | '-' :: rest =>
      let value := digits 0 rest
      if value < 18446744073709551616 then (18446744073709551616 - value) % 18446744073709551616
      else 18446744073709551615
  | '+' :: rest => min (digits 0 rest) 18446744073709551615
  | str => min (digits 0 str) 18446744073709551615

/-- The size of `name`. -/
def nameSize : Nat := 65

/-- `strncpy(name, token+1, len-2); name[len-2] = '\0';`.  For a token of one character the
size is that of -1, and the zeros behind the copy go on until the process dies. -/
def copyName (token : CString) : Option CString :=
  let len := token.length
  if 2 ≤ len ∧ len - 2 < nameSize then some ((token.drop 1).take (len - 2)) else none

/-- The variables the fields are stored in. -/
structure Fields where
  name : CString
  utime : Nat
  stime : Nat
  vsize : Nat
  deriving DecidableEq, Repr

/-- The loop over the tokens, from number `i` on. -/
def fieldLoop : Nat → List CString → Fields → Option Fields
  | _, [], f => some f
  | i, token :: rest, f =>
      if i = 1 then (copyName token).bind fun name => fieldLoop (i + 1) rest { f with name }
      else if i = 13 then fieldLoop (i + 1) rest { f with utime := strtoul token }
      else if i = 14 then fieldLoop (i + 1) rest { f with stime := strtoul token }
      else if i = 22 then some { f with vsize := strtoul token }
      else fieldLoop (i + 1) rest f

/-- From `fgets(data, 2048, stat_fp)` to the end of the loop; `f` is what the variables hold. -/
def readStat (stat : CString) (f : Fields) : Option Fields :=
  let data := (fgets 2047 stat).1.takeWhile (· ≠ '\x00')
  fieldLoop 0 (strtok data) f

/-! ### The table -/

structure Psinfo where
  pid : Int
  name : CString
  vsize : Nat
  cputime : Nat
  user : CString
  deriving DecidableEq, Repr

/-- What `main` makes of the fields; `ticks` is `sysconf(_SC_CLK_TCK)`. -/
def makePsinfo (pid : Int) (f : Fields) (ticks : Nat) (user : CString) : Psinfo where
  pid := pid
  name := f.name
  vsize := f.vsize / 1000
  cputime := (f.utime + f.stime) % 18446744073709551616 / ticks
  user := user

/-- An `unsigned long` as a `long long`. -/
def toLongLong (n : Nat) : Int := (n : Int).bmod 18446744073709551616

/-- An integer as an `int`. -/
def toInt (n : Int) : Int := n.bmod 4294967296

/-- `return b_ - a_;`, for a key. -/
def psinfoCmp (key : Psinfo → Nat) (a b : Psinfo) : Int :=
  toInt (toLongLong (key b) - toLongLong (key a))

def psinfoCmpCputime : Psinfo → Psinfo → Int := psinfoCmp Psinfo.cputime

def psinfoCmpVsize : Psinfo → Psinfo → Int := psinfoCmp Psinfo.vsize

/-- What `%7d` and the like do. -/
def padLeft (c : Char) (width : Nat) (s : CString) : CString :=
  List.replicate (width - s.length) c ++ s

def padRight (c : Char) (width : Nat) (s : CString) : CString :=
  s ++ List.replicate (width - s.length) c

/-- `print_ps`. -/
def printPs (ps : Psinfo) : CString :=
  let hour := toInt (ps.cputime / 3600 : Nat)
  let cputime := (ps.cputime - toInt (hour * 3600)) % 18446744073709551616
  let minute := toInt (cputime / 60)
  let cputime := (cputime - toInt (minute * 60)) % 18446744073709551616
  let second := toInt cputime
  padLeft ' ' 7 (decimal ps.pid) ++ ' ' :: padRight ' ' 20 ps.user ++ ' ' ::
    padLeft '0' 2 (decimal hour) ++ ':' :: padLeft '0' 2 (decimal minute) ++ ':' ::
    padLeft '0' 2 (decimal second) ++ ' ' :: padLeft ' ' 10 (decimal ps.vsize) ++ ' ' ::
    ps.name ++ ['\n']

/-- The first line of `print_all_ps`. -/
def tableHead : CString :=
  padLeft ' ' 7 "PID".toList ++ ' ' :: padRight ' ' 20 "USER".toList ++ ' ' ::
    padLeft ' ' 8 "TIME".toList ++ ' ' :: padLeft ' ' 10 "VIRT".toList ++ ' ' :: "CMD\n".toList

/-- `print_all_ps`: the lines. -/
def printAllPs (pses : List Psinfo) : List CString := tableHead :: pses.map printPs

/-- The variable `sort`: none of the options, `-m` or `-p`. -/
inductive SortBy
  | unsorted | vsize | cputime
  deriving DecidableEq, Repr

/-- The table that `main` prints. -/
def table (qsort : (Psinfo → Psinfo → Int) → List Psinfo → List Psinfo) (sort : SortBy)
    (pses : List Psinfo) : List CString :=
  match sort with
  | .unsorted => printAllPs pses
  | .vsize => printAllPs (qsort psinfoCmpVsize pses)
  | .cputime => printAllPs (qsort psinfoCmpCputime pses)

end Ps
