/-
The driver of `scull.c`, a device that keeps what is written to it.

What is kept hangs off the device as a list of `struct scull_qset`, each with an array of
`qset` pointers to quanta of `quantum` bytes, and each of the three is got from `kmalloc`
when a position first needs it.  The blocks stand in a heap under the number of the call
that gave them out.  `grant` says what the n-th call answers: that there is no memory, or
what the memory holds, for a quantum is not cleared.

A step that a kernel does not survive is an `Oops`: a division by zero, a pointer followed
that leads to no live block of its type or out of the block, and a free of what is not
allocated.

`int` wraps.  A file position is not negative and a position and a count do not pass the
end of `loff_t` together, which the caller of `read` and `write` has checked, so these are
natural numbers.  The calls are made one at a time: the driver takes no lock, and what
becomes of calls that overlap is not described.
-/
import Mathlib.Logic.Function.Basic
import Mathlib.Tactic.Common

namespace Scull

/-! ### The kernel -/

abbrev Addr : Type := ℕ

/-- What the driver allocates. -/
inductive Block
  | qset (data next : Option Addr)
  | array (slots : List (Option Addr))
  | quantum (bytes : List UInt8)

/-- `struct scull_dev`. -/
structure Dev where
  data : Option Addr
  quantum : Int
  qset : Int
  size : ℕ

/-- The heap, the calls of `kmalloc` and what they are answered, the parameters of the
module, and `scull_device`. -/
structure Kernel where
  heap : Addr → Option Block
  calls : ℕ
  grant : ℕ → Option (ℕ → UInt8)
  scullQuantum : Int
  scullQset : Int
  dev : Dev

inductive Oops
  | divideError
  | badAddress
  | badFree
  | hang
  deriving DecidableEq, Repr

abbrev Driver : Type → Type := StateT Kernel (Except Oops)

/-- What is stored in an `int`. -/
def int32 (n : Int) : Int := n.bmod 4294967296

/-- What is stored in a `size_t`. -/
def size64 (n : Int) : ℕ := (n % 18446744073709551616).toNat

/-- `kmalloc`, and the `memset` behind it where there is one. -/
def kmalloc (block : (ℕ → UInt8) → Block) : Driver (Option Addr) := fun k =>
  match k.grant k.calls with
  | none => .ok (none, { k with calls := k.calls + 1 })
  | some memory =>
      .ok (some k.calls, { k with
        calls := k.calls + 1
        heap := Function.update k.heap k.calls (some (block memory)) })

/-- A call of `kmalloc` between the two states was refused. -/
def refused (k k' : Kernel) : Bool :=
  (List.range k'.calls).any fun c => k.calls ≤ c && (k.grant c).isNone

/-- `kfree`, which does nothing to a null pointer. -/
def kfree (p : Option Addr) : Driver Unit := fun k =>
  match p with
  | none => .ok ((), k)
  | some a =>
      if (k.heap a).isSome then .ok ((), { k with heap := Function.update k.heap a none })
      else .error .badFree

/-- Follow a pointer and take something from the block. -/
def peek {α : Type} (take : Block → Option α) (p : Option Addr) : Driver α := fun k =>
  match (p.bind k.heap).bind take with
  | some a => .ok (a, k)
  | none => .error .badAddress

/-- Follow a pointer and write to the block. -/
def poke (write : Block → Option Block) (p : Option Addr) : Driver Unit := fun k =>
  match p, (p.bind k.heap).bind write with
  | some a, some b => .ok ((), { k with heap := Function.update k.heap a (some b) })
  | _, _ => .error .badAddress

def Block.data? : Block → Option (Option Addr)
  | .qset data _ => some data
  | _ => none

def Block.next? : Block → Option (Option Addr)
  | .qset _ next => some next
  | _ => none

def Block.slot? (i : Int) : Block → Option (Option Addr)
  | .array slots => if 0 ≤ i then slots[i.toNat]? else none
  | _ => none

def Block.bytes? (off : Int) (n : ℕ) : Block → Option (List UInt8)
  | .quantum bytes =>
      if 0 ≤ off ∧ off + n ≤ bytes.length then some ((bytes.drop off.toNat).take n) else none
  | _ => none

def Block.setData (data : Option Addr) : Block → Option Block
  | .qset _ next => some (.qset data next)
  | _ => none

def Block.setNext (next : Option Addr) : Block → Option Block
  | .qset data _ => some (.qset data next)
  | _ => none

def Block.setSlot (i : Int) (p : Option Addr) : Block → Option Block
  | .array slots =>
      if 0 ≤ i ∧ i < slots.length then some (.array (slots.set i.toNat p)) else none
  | _ => none

def Block.setBytes (off : Int) (new : List UInt8) : Block → Option Block
  | .quantum bytes =>
      if 0 ≤ off ∧ off + new.length ≤ bytes.length then
        some (.quantum (bytes.take off.toNat ++ new ++ bytes.drop (off.toNat + new.length)))
      else none
  | _ => none

/-! ### `scull_trim` -/

/-- `kfree(dptr->data[i])` for `n` values of `i`. -/
def freeSlots (data : Option Addr) : ℕ → Int → Driver Unit
  | 0, _ => pure ()
  | n + 1, i => do
      let p ← peek (Block.slot? i) data
      kfree p
      freeSlots data n (i + 1)

/-- `if (dptr->data) { ... }`. -/
def freeData (qset : Int) (dptr : Option Addr) : Driver Unit := do
  let data ← peek Block.data? dptr
  match data with
  | none => pure ()
  | some _ => do
      freeSlots data qset.toNat 0
      kfree data
      poke (Block.setData none) dptr

/-- The loop over the list. -/
def trimLoop (qset : Int) : ℕ → Option Addr → Driver Unit
  | 0, _ => throw .hang
  | _ + 1, none => pure ()
  | fuel + 1, some dptr => do
      freeData qset (some dptr)
      let next ← peek Block.next? (some dptr)
      kfree (some dptr)
      trimLoop qset fuel next

/-- The fields of the device are set again, from the parameters as they are now. -/
def resetDev (k : Kernel) : Kernel :=
  { k with dev := { data := none, quantum := k.scullQuantum, qset := k.scullQset, size := 0 } }

def scullTrim : Driver Unit := do
  let k ← get
  trimLoop k.dev.qset (k.calls + 1) k.dev.data
  modify resetDev

/-! ### `scull_follow` -/

/-- A `struct scull_qset` of zeros. -/
def newQset : Driver (Option Addr) := kmalloc fun _ => .qset none none

/-- The loop, with how often it goes round. -/
def followLoop : ℕ → Option Addr → Driver (Option Addr)
  | 0, qs => pure qs
  | n + 1, qs => do
      let next ← peek Block.next? qs
      match next with
      | some a => followLoop n (some a)
      | none => do
          let new ← newQset
          poke (Block.setNext new) qs
          match new with
          | some a => followLoop n (some a)
          | none => pure none

/-- How often `n--` is not zero. -/
def rounds (n : Int) : ℕ := (n % 4294967296).toNat

def scullFollow (n : Int) : Driver (Option Addr) := do
  let k ← get
  match k.dev.data with
  | some a => followLoop (rounds n) (some a)
  | none => do
      let qs ← newQset
      modify fun k => { k with dev := { k.dev with data := qs } }
      match qs with
      | some a => followLoop (rounds n) (some a)
      | none => pure none

/-! ### `scull_read` and `scull_write` -/

def divide (a b : Int) : Driver Int :=
  if b = 0 then throw .divideError else pure (int32 (a.tdiv b))

def modulo (a b : Int) : Driver Int :=
  if b = 0 then throw .divideError else pure (int32 (a.tmod b))

structure Place where
  item : Int
  sPos : Int
  qPos : Int
  deriving DecidableEq, Repr

/-- The four lines that find a position. -/
def locate (quantum qset : Int) (fPos : ℕ) : Driver Place := do
  let itemsize := int32 (quantum * qset)
  let item ← divide fPos itemsize
  let rest ← modulo fPos itemsize
  let sPos ← divide rest quantum
  let qPos ← modulo rest quantum
  pure { item, sPos, qPos }

/-- What a call returns, where it leaves the file position, and the bytes that have come into
the caller's buffer. -/
structure Outcome where
  ret : Int
  fPos : ℕ
  out : List UInt8
  deriving DecidableEq, Repr

def enomem : Int := -12

def efault : Int := -14

/-- `if (count > quantum - q_pos) count = quantum - q_pos;`. -/
def cut (quantum qPos : Int) (count : ℕ) : ℕ :=
  if count > size64 (quantum - qPos) then size64 (quantum - qPos) else count

/-- `dptr->data[s_pos]`, or null when something on the way is. -/
def quantumAt (dptr : Option Addr) (sPos : Int) : Driver (Option Addr) :=
  match dptr with
  | none => pure none
  | some _ => do
      let data ← peek Block.data? dptr
      match data with
      | none => pure none
      | some _ => peek (Block.slot? sPos) data

/-- `copy_to_user` to a buffer of which `room` bytes can be written. -/
def copyOut (quantum : Int) (at_ : Place) (room count fPos : ℕ) (p : Option Addr) :
    Driver Outcome := do
  let count := cut quantum at_.qPos count
  let bytes ← peek (Block.bytes? at_.qPos count) p
  if room < count then pure { ret := efault, fPos, out := bytes.take room }
  else pure { ret := count, fPos := fPos + count, out := bytes }

def scullRead (room count fPos : ℕ) : Driver Outcome := do
  let k ← get
  if fPos ≥ k.dev.size then pure { ret := 0, fPos, out := [] }
  else do
    let count := if fPos + count > k.dev.size then k.dev.size - fPos else count
    let at_ ← locate k.dev.quantum k.dev.qset fPos
    let dptr ← scullFollow at_.item
    let p ← quantumAt dptr at_.sPos
    match p with
    | none => pure { ret := 0, fPos, out := [] }
    | some a => copyOut k.dev.quantum at_ room count fPos (some a)

/-- `dptr->data`, allocated and cleared if it is null. -/
def arrayFor (qset : Int) (dptr : Option Addr) : Driver (Option Addr) := do
  let data ← peek Block.data? dptr
  match data with
  | some a => pure (some a)
  | none => do
      let new ← kmalloc fun _ => .array (List.replicate (size64 (qset * 8) / 8) none)
      poke (Block.setData new) dptr
      pure new

/-- `dptr->data[s_pos]`, allocated if it is null. -/
def quantumFor (quantum sPos : Int) (data : Option Addr) : Driver (Option Addr) := do
  let p ← peek (Block.slot? sPos) data
  match p with
  | some a => pure (some a)
  | none => do
      let new ← kmalloc fun memory => .quantum ((List.range (size64 quantum)).map memory)
      poke (Block.setSlot sPos new) data
      pure new

/-- What `copy_from_user` leaves when `n` bytes are asked for and only `buf` can be read: the
rest is filled with zeros. -/
def padded (buf : List UInt8) (n : ℕ) : List UInt8 :=
  buf.take n ++ List.replicate (n - buf.length) 0

/-- `if (dev->size < *f_pos) dev->size = *f_pos;`. -/
def growTo (fPos : ℕ) (k : Kernel) : Kernel :=
  if k.dev.size < fPos then { k with dev := { k.dev with size := fPos } } else k

/-- `copy_from_user` from a buffer of which `buf` can be read, and what follows it. -/
def copyIn (quantum : Int) (at_ : Place) (buf : List UInt8) (count fPos : ℕ) (p : Option Addr) :
    Driver Outcome := do
  let count := cut quantum at_.qPos count
  poke (Block.setBytes at_.qPos (padded buf count)) p
  if buf.length < count then pure { ret := efault, fPos, out := [] }
  else do
    modify (growTo (fPos + count))
    pure { ret := count, fPos := fPos + count, out := [] }

def noMemory (fPos : ℕ) : Outcome where
  ret := enomem
  fPos := fPos
  out := []

def scullWrite (buf : List UInt8) (count fPos : ℕ) : Driver Outcome := do
  let k ← get
  let at_ ← locate k.dev.quantum k.dev.qset fPos
  let dptr ← scullFollow at_.item
  match dptr with
  | none => pure (noMemory fPos)
  | some a => do
      let data ← arrayFor k.dev.qset (some a)
      match data with
      | none => pure (noMemory fPos)
      | some b => do
          let p ← quantumFor k.dev.quantum at_.sPos (some b)
          match p with
          | none => pure (noMemory fPos)
          | some c => copyIn k.dev.quantum at_ buf count fPos (some c)

/-! ### The device in use -/

/-- `O_ACCMODE` of the flags is `O_WRONLY`. -/
def wronly (flags : ℕ) : Bool := flags &&& 3 = 1

def scullOpen (flags : ℕ) : Driver Unit := if wronly flags then scullTrim else pure ()

/-- What reaches the driver: the calls of its files, at any position, and writes to the
parameters of the module, which anyone with the right to may make at any time. -/
inductive Op
  | open (flags : ℕ)
  | release
  | read (room count fPos : ℕ)
  | write (buf : List UInt8) (count fPos : ℕ)
  | setQuantum (value : Int)
  | setQset (value : Int)

/-- A call that only succeeds. -/
def done : Outcome where
  ret := 0
  fPos := 0
  out := []

def call : Op → Driver Outcome
  | .open flags => do
      scullOpen flags
      pure done
  | .release => pure done
  | .read room count fPos => scullRead room count fPos
  | .write buf count fPos => scullWrite buf count fPos
  | .setQuantum value => do
      modify fun k => { k with scullQuantum := value }
      pure done
  | .setQset value => do
      modify fun k => { k with scullQset := value }
      pure done

/-- One call and what it gives. -/
def step (k : Kernel) (c : Op × Outcome) : Option Kernel :=
  match call c.1 k with
  | .ok (out, k') => if out = c.2 then some k' else none
  | .error _ => none

/-- The module when it has been loaded: `scull_device` is static, so it is zero. -/
def loaded (grant : ℕ → Option (ℕ → UInt8)) (quantum qset : Int) : Kernel where
  heap _ := none
  calls := 0
  grant := grant
  scullQuantum := quantum
  scullQset := qset
  dev := { data := none, quantum := 0, qset := 0, size := 0 }

end Scull
