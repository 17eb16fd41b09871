/-
`xmerge`, twice: the system call of `xmerge.c` and `usr_xmerge` of `test_xmerge.c`.

The two were written one after the other and share nothing but their loops.  The
system call keeps the error of the call that failed in a variable and cleans up behind
three labels, `close2_and_quit`, `close1_and_quit` and `quit`.  The other one leaves
the error in `errno`, which its own cleanup may overwrite, and has one label, `quit`.

The copy loop need not end, so it takes a number of iterations and is `none` when they
do not suffice.  `kmalloc` succeeds, and so does `copy_to_user`; whether
`copy_from_user` does is `fault`.  The count of bytes is an `int` that wraps; a count of
files is not larger than an argument count, and does not.
-/
import KernelProgramming.Xmerge.Files

namespace Xmerge

/-- `xmerge_params`; the mode only matters to an open. -/
structure Params where
  outfile : FileId
  infiles : List FileId
  oflags : Flags
  few : infiles.length < 2147483648

/-- What is stored in an `int`. -/
def int32 (n : Int) : Int := n.bmod 4294967296

/-! ### The system call -/

/-- How the `while` loop is left. -/
inductive CopyExit
  | eof
  | fail (errno : Int)
  deriving DecidableEq, Repr

/-- The `while` loop: how it is left, `num_bytes`, and the files. -/
def copyLoop (env : Env) (size : Nat) (inFd out : Int) :
    Nat → World → Int → Option (CopyExit × Int × World)
  | 0, _, _ => none
  | fuel + 1, w, numBytes =>
      let (bytesRead, buffer, w) := ksysRead env w inFd size
      if bytesRead < 0 then some (.fail bytesRead, numBytes, w)
      else if bytesRead = 0 then some (.eof, numBytes, w)
      else
        let (bytesWrite, w) := ksysWrite env w out buffer
        if bytesWrite < 0 then some (.fail bytesWrite, numBytes, w)
        else copyLoop env size inFd out fuel w (int32 (numBytes + bytesWrite))

/-- The address limit. -/
inductive Limit
  | userDs | kernelDs
  deriving DecidableEq, Repr

/-- What the call does besides reading and writing: it gets memory, follows the caller's
pointers, opens and closes descriptors, stores a count, and gives the memory back. -/
inductive Act
  | kmalloc
  | copyFromUser
  | ksysOpen (path : FileId) (result : Int)
  | ksysClose (fd : Int)
  | copyToUser (count : Nat)
  | kfree
  deriving DecidableEq, Repr

/-- The system call at work.  Every act is noted with the address limit it happens under. -/
structure Kern where
  world : World
  limit : Limit
  acts : List (Limit × Act)

namespace Kern

def note (k : Kern) (act : Act) : Kern := { k with acts := k.acts ++ [(k.limit, act)] }

def setFs (k : Kern) (limit : Limit) : Kern := { k with limit := limit }

def «open» (env : Env) (k : Kern) (path : FileId) (flags : Flags) : Int × Kern :=
  let r := ksysOpen env k.world path flags
  (r.1, { k with world := r.2 }.note (.ksysOpen path r.1))

def close (k : Kern) (fd : Int) : Kern :=
  { k with world := (ksysClose k.world fd).2 }.note (.ksysClose fd)

end Kern

/-- How the `for` loop is left: at its end, or for one of the labels with what the
variables `in` and `errno` hold. -/
inductive FilesExit
  | done
  | close1 (errno : Int)
  | close2 (inFd errno : Int)
  deriving DecidableEq, Repr

/-- The `for` loop: how it is left, `num_bytes`, `ofile_count`, and the state. -/
def filesLoop (env : Env) (size fuel : Nat) (out : Int) :
    List FileId → Kern → Int → Nat → Option (FilesExit × Int × Nat × Kern)
  | [], k, numBytes, ofileCount => some (.done, numBytes, ofileCount, k)
  | path :: rest, k, numBytes, ofileCount =>
      let (inFd, k) := k.open env path .rdonly
      if inFd < 0 then some (.close1 inFd, numBytes, ofileCount, k)
      else
        (copyLoop env size inFd out fuel k.world numBytes).bind fun (exit, numBytes, w) =>
          match exit with
          | .fail errno => some (.close2 inFd errno, numBytes, ofileCount, { k with world := w })
          | .eof =>
              filesLoop env size fuel out rest ({ k with world := w }.close inFd) numBytes
                (ofileCount + 1)

/-- What a call leaves behind: its value, what has been stored in `*ofile_count` if anything,
and the state. -/
structure Return (σ : Type) where
  value : Int
  ofileCount : Option Nat
  state : σ

/-- The label `quit`. -/
def quit (k : Kern) (errno : Int) (ofileCount : Option Nat) : Return Kern where
  value := errno
  ofileCount := ofileCount
  state := k.note .kfree

/-- The label `close1_and_quit`. -/
def close1AndQuit (k : Kern) (oldFs : Limit) (out errno : Int) (ofileCount : Nat) : Return Kern :=
  quit (((k.close out).note (.copyToUser ofileCount)).setFs oldFs) errno (some ofileCount)

/-- The label `close2_and_quit`. -/
def close2AndQuit (k : Kern) (oldFs : Limit) (inFd out errno : Int) (ofileCount : Nat) :
    Return Kern :=
  close1AndQuit (k.close inFd) oldFs out errno ofileCount

/-- What follows the `for` loop. -/
def afterFiles (oldFs : Limit) (out : Int) : FilesExit × Int × Nat × Kern → Return Kern
  | (.close2 inFd errno, _, ofileCount, k) => close2AndQuit k oldFs inFd out errno ofileCount
  | (.close1 errno, _, ofileCount, k) => close1AndQuit k oldFs out errno ofileCount
  | (.done, numBytes, ofileCount, k) =>
      let k := ((k.setFs oldFs).close out).note (.copyToUser ofileCount)
      { value := numBytes, ofileCount := some ofileCount, state := k.note .kfree }

def xmerge (env : Env) (size fuel : Nat) (k : Kern) (p : Params) (fault : Bool) :
    Option (Return Kern) :=
  let k := (k.note .kmalloc).note .copyFromUser
  if fault then some (quit k (-Errno.efault.code) none)
  else
    let (out, k) := k.open env p.outfile p.oflags
    if out < 0 then some (quit k out none)
    else
      let oldFs := k.limit
      (filesLoop env size fuel out p.infiles (k.setFs .kernelDs) 0 0).map (afterFiles oldFs out)

/-! ### The function in user space -/

/-- The process at work. -/
structure User where
  world : World
  errno : Int

/-- What the C library makes of the answer of a system call. -/
def libc (u : User) (answer : Int) (w : World) : Int × User :=
  if answer < 0 then (-1, { world := w, errno := -answer }) else (answer, { u with world := w })

namespace User

def «open» (env : Env) (u : User) (path : FileId) (flags : Flags) : Int × User :=
  let r := ksysOpen env u.world path flags
  libc u r.1 r.2

def read (env : Env) (u : User) (fd : Int) (count : Nat) : Int × Content × User :=
  let r := ksysRead env u.world fd count
  let l := libc u r.1 r.2.2
  (l.1, r.2.1, l.2)

def write (env : Env) (u : User) (fd : Int) (buffer : Content) : Int × User :=
  let r := ksysWrite env u.world fd buffer
  libc u r.1 r.2

def close (u : User) (fd : Int) : User :=
  let r := ksysClose u.world fd
  (libc u r.1 r.2).2

end User

/-- The `while` loop: whether it is left for `quit`, `num_bytes`, and the process. -/
def usrCopyLoop (env : Env) (size : Nat) (inFd out : Int) :
    Nat → User → Int → Option (Bool × Int × User)
  | 0, _, _ => none
  | fuel + 1, u, numBytes =>
      let (bytesRead, buffer, u) := u.read env inFd size
      if bytesRead < 0 then some (true, numBytes, u)
      else if bytesRead = 0 then some (false, numBytes, u)
      else
        let (bytesWrite, u) := u.write env out buffer
        if bytesWrite < 0 then some (true, numBytes, u)
        else usrCopyLoop env size inFd out fuel u (int32 (numBytes + bytesWrite))

/-- The `for` loop: what `in` holds if it is left for `quit`, `num_bytes`, `ofile_count`, and
the process. -/
def usrFilesLoop (env : Env) (size fuel : Nat) (out : Int) :
    List FileId → User → Int → Nat → Option (Option Int × Int × Nat × User)
  | [], u, numBytes, ofileCount => some (none, numBytes, ofileCount, u)
  | path :: rest, u, numBytes, ofileCount =>
      let (inFd, u) := u.open env path .rdonly
      if inFd < 0 then some (some inFd, numBytes, ofileCount, u)
      else
        (usrCopyLoop env size inFd out fuel u numBytes).bind fun (quit, numBytes, u) =>
          if quit then some (some inFd, numBytes, ofileCount, u)
          else usrFilesLoop env size fuel out rest (u.close inFd) numBytes (ofileCount + 1)

/-- What follows the `for` loop. -/
def usrAfterFiles (out : Int) : Option Int × Int × Nat × User → Return User
  | (none, numBytes, ofileCount, u) =>
      { value := numBytes, ofileCount := some ofileCount, state := u.close out }
  | (some inFd, _, ofileCount, u) =>
      let u := (u.close inFd).close out
      { value := -u.errno, ofileCount := some ofileCount, state := u }

def usrXmerge (env : Env) (size fuel : Nat) (u : User) (p : Params) : Option (Return User) :=
  let (out, u) := u.open env p.outfile p.oflags
  if out < 0 then some { value := -u.errno, ofileCount := none, state := u }
  else (usrFilesLoop env size fuel out p.infiles u 0 0).map (usrAfterFiles out)

end Xmerge
