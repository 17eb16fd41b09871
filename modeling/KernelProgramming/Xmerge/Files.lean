/-
Files and the system calls on them, as `xmerge` sees them.

A path is the regular file it names, so two paths that name one file are one path.
`Env` is everything the calls may answer: whether the n-th open succeeds, and whether
the n-th read or write fails or how many bytes it moves at most.  A read or write that
succeeds moves at least one byte if there is one.

The mode of a new file, and what `O_CREAT` and `O_EXCL` make of an open, are part of
what the environment answers.
-/
import KernelProgramming.Lib.Descriptors

namespace Xmerge

open Descriptors

/-- A regular file. -/
abbrev FileId : Type := Nat

abbrev Content : Type := List UInt8

/-- An error number. -/
structure Errno where
  code : Nat
  pos : 0 < code
  max : code < 4096

def Errno.ebadf : Errno := ⟨9, by decide, by decide⟩

def Errno.efault : Errno := ⟨14, by decide, by decide⟩

/-- What becomes of one read or write. -/
inductive Answer
  | fail (e : Errno)
  | upTo (limit : Nat)

structure Env where
  opens : Nat → Option Errno
  reads : Nat → Answer
  writes : Nat → Answer

/-- An open file; `append` is `O_APPEND`. -/
structure OpenFile where
  file : FileId
  pos : Nat
  append : Bool
  deriving DecidableEq, Repr

/-- The flags of an open that matter once it has succeeded. -/
structure Flags where
  append : Bool
  trunc : Bool
  deriving DecidableEq, Repr

def Flags.rdonly : Flags := { append := false, trunc := false }

/-- The files, the caller's descriptors, and how many calls there have been. -/
structure World where
  content : FileId → Content
  fds : Table OpenFile
  opens : Nat
  reads : Nat
  writes : Nat

namespace World

/-- The open file behind a descriptor. -/
def lookup (w : World) (fd : Int) : Option OpenFile :=
  if fd < 0 then none else w.fds.file fd.toNat

/-- The files, and a process that has none of them open. -/
def idle (content : FileId → Content) : World where
  content := content
  fds := { file := fun _ => none, bound := 0, closed := fun _ _ => rfl }
  opens := 0
  reads := 0
  writes := 0

end World

def ksysOpen (env : Env) (w : World) (path : FileId) (flags : Flags) : Int × World :=
  match env.opens w.opens with
  | some e => (-e.code, { w with opens := w.opens + 1 })
  | none =>
      let r := w.fds.alloc { file := path, pos := 0, append := flags.append }
      (r.1,
        { w with
          content := if flags.trunc then Function.update w.content path [] else w.content
          fds := r.2
          opens := w.opens + 1 })

/-- The answer, and the bytes that are now in the buffer. -/
def ksysRead (env : Env) (w : World) (fd : Int) (count : Nat) : Int × Content × World :=
  match w.lookup fd with
  | none => (-Errno.ebadf.code, [], w)
  | some f =>
      match env.reads w.reads with
      | .fail e => (-e.code, [], { w with reads := w.reads + 1 })
      | .upTo limit =>
          let got := (((w.content f.file).drop f.pos).take count).take (max 1 limit)
          (got.length, got,
            { w with
              fds := w.fds.set fd.toNat (some { f with pos := f.pos + got.length })
              reads := w.reads + 1 })

/-- The content of a file after `bytes` have been written at `pos`; a gap reads as zeros. -/
def writeAt (content : Content) (pos : Nat) (bytes : Content) : Content :=
  content.take pos ++ List.replicate (pos - content.length) 0 ++ bytes ++
    content.drop (pos + bytes.length)

def ksysWrite (env : Env) (w : World) (fd : Int) (buffer : Content) : Int × World :=
  match w.lookup fd with
  | none => (-Errno.ebadf.code, w)
  | some f =>
      match env.writes w.writes with
      | .fail e => (-e.code, { w with writes := w.writes + 1 })
      | .upTo limit =>
          let put := buffer.take (max 1 limit)
          let pos := if f.append then (w.content f.file).length else f.pos
          (put.length,
            { w with
              content := Function.update w.content f.file (writeAt (w.content f.file) pos put)
              fds := w.fds.set fd.toNat (some { f with pos := pos + put.length })
              writes := w.writes + 1 })

def ksysClose (w : World) (fd : Int) : Int × World :=
  match w.lookup fd with
  | none => (-Errno.ebadf.code, w)
  | some _ => (0, { w with fds := w.fds.close fd.toNat })

end Xmerge
