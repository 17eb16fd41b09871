/-
`xmerge` on parameters that change under it.

`p` points into the caller's memory, where another thread may write between any two of
the call's reads.  `num_files` is read for `kmalloc`, for `copy_from_user`, and then at
every test of the `for` loop; all other fields are read once.  `Fetches` is what these
reads find.

The index `i` is an `int` that is compared with an `unsigned int`, and is used as it is.
What `infiles[i]` holds is any path: an entry that has been copied, one that has not, or
what lies in memory beside the array.  As the tests may go on for ever, the loop takes a
number of turns besides the iterations of the copy loop, and it tells the indices it has
used whether or not they suffice.
-/
import KernelProgramming.Xmerge.Merge

namespace Xmerge

/-- What the reads of `p->num_files` find. -/
structure Fetches where
  alloc : UInt32
  copy : UInt32
  test : Nat → UInt32

/-- `i < n` for an `int` and an `unsigned int`. -/
def indexBelow (i : Int) (n : UInt32) : Bool := decide ((i % 4294967296).toNat < n.toNat)

/-- The `for` loop, with the number of the next test: the indices it uses, and how it is left.
The count of files is the bits of an `int`. -/
def fetchLoop (env : Env) (size fuel : Nat) (out : Int) (numFiles : Nat → UInt32)
    (infiles : Int → FileId) :
    Nat → Nat → Int → Kern → Int → Nat → List Int × Option (FilesExit × Int × Nat × Kern)
  | 0, _, _, _, _, _ => ([], none)
  | turns + 1, test, i, k, numBytes, ofileCount =>
      if indexBelow i (numFiles test) then
        let (inFd, k) := k.open env (infiles i) .rdonly
        if inFd < 0 then ([i], some (.close1 inFd, numBytes, ofileCount, k))
        else
          match copyLoop env size inFd out fuel k.world numBytes with
          | none => ([i], none)
          | some (.fail errno, numBytes, w) =>
              ([i], some (.close2 inFd errno, numBytes, ofileCount, { k with world := w }))
          | some (.eof, numBytes, w) =>
              let (indices, exit) := fetchLoop env size fuel out numFiles infiles turns (test + 1)
                (int32 (i + 1)) ({ k with world := w }.close inFd) numBytes
                ((ofileCount + 1) % 4294967296)
              (i :: indices, exit)
      else ([], some (.done, numBytes, ofileCount, k))

/-- `sizeof(char*)`. -/
def sizeofPtr : Nat := 8

/-- A call: the bytes asked of `kmalloc`, the bytes asked of `copy_from_user`, the indices that
have been used, and what is returned. -/
structure Fetched where
  allocated : Nat
  copied : Nat
  indices : List Int
  result : Option (Return Kern)

/-- `xmerge`, with the fields that are read once and the memory behind `infiles`. -/
def xmergeFetching (env : Env) (size fuel turns : Nat) (k : Kern) (numFiles : Fetches)
    (outfile : FileId) (oflags : Flags) (infiles : Int → FileId) (fault : Bool) : Fetched :=
  let call (indices : List Int) (result : Option (Return Kern)) : Fetched :=
    { allocated := sizeofPtr * numFiles.alloc.toNat
      copied := sizeofPtr * numFiles.copy.toNat
      indices := indices
      result := result }
  let k := (k.note .kmalloc).note .copyFromUser
  if fault then call [] (some (quit k (-Errno.efault.code) none))
  else
    let (out, k) := k.open env outfile oflags
    if out < 0 then call [] (some (quit k out none))
    else
      let oldFs := k.limit
      let (indices, exit) := fetchLoop env size fuel out numFiles.test infiles turns 0 0
        (k.setFs .kernelDs) 0 0
      call indices (exit.map (afterFiles oldFs out))

end Xmerge
