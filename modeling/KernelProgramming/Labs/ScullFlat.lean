/-
What the scull device is for: a flat file.

A position has a cell, which holds the byte that was last written to it since the file was last
emptied, or nothing.  The lists, arrays and quanta of the driver do not occur; what is left of
them is where a call stops, at the end of the quantum of its position, and that there are cells
for 2^32 items only, so that positions further on are counted from the start again.

What a read gives for cells that hold nothing is not said: the driver does not clear a quantum, so
it is what the memory held.  A write finds no memory exactly when `kmalloc` has refused it some.
-/
import KernelProgramming.Labs.Scull

namespace Scull

/-- The byte of a position in its quantum. -/
def offsOf (q pos : ℕ) : ℕ := pos % q

/-- How many of `count` bytes there are in the quantum of a position from there on. -/
def moved (q count pos : ℕ) : ℕ := min count (q - offsOf q pos)

/-- A file with quanta of `q` bytes and items of `n` quanta, and what the next one will have. -/
structure Flat where
  q : ℕ
  n : ℕ
  size : ℕ
  cell : ℕ → Option UInt8
  scullQuantum : Int
  scullQset : Int

namespace Flat

/-- The cell of a position. -/
def key (f : Flat) (pos : ℕ) : ℕ := pos % (f.q * f.n * 4294967296)

/-- The cells with `new` written from `start` on. -/
def put (cell : ℕ → Option UInt8) (start : ℕ) (new : List UInt8) (c : ℕ) : Option UInt8 :=
  if start ≤ c ∧ c < start + new.length then new[c - start]? else cell c

/-- The file emptied, with the sizes that have been asked for. -/
def emptied (f : Flat) : Flat :=
  { f with q := f.scullQuantum.toNat, n := f.scullQset.toNat, size := 0, cell := fun _ => none }

/-- A call that moves nothing. -/
def nothing (pos : ℕ) : Outcome where
  ret := 0
  fPos := pos
  out := []

/-- A read that moves bytes, if there is room for all of them. -/
def gave (room pos : ℕ) (bytes : List UInt8) : Outcome :=
  if room < bytes.length then { ret := efault, fPos := pos, out := bytes.take room }
  else { ret := bytes.length, fPos := pos + bytes.length, out := bytes }

/-- A read at `pos` may return these bytes. -/
structure Reads (f : Flat) (count pos : ℕ) (bytes : List UInt8) : Prop where
  inside : pos < f.size
  length : bytes.length = moved f.q (min count (f.size - pos)) pos
  /-- What has been written is what is read. -/
  cells : ∀ j b, j < bytes.length → f.cell (f.key (pos + j)) = some b → bytes[j]? = some b

/-- What a call may do.  It comes with whether `kmalloc` has refused it memory, which only a write
has to do with. -/
inductive Step : Flat → (Op × Outcome) × Bool → Flat → Prop
  | trim {f : Flat} {flags : ℕ} {b : Bool} (hw : wronly flags = true) :
      Step f ((.open flags, done), b) f.emptied
  | «open» {f : Flat} {flags : ℕ} {b : Bool} (hw : wronly flags = false) :
      Step f ((.open flags, done), b) f
  | release {f : Flat} {b : Bool} : Step f ((.release, done), b) f
  | setQuantum {f : Flat} {value : Int} {b : Bool} :
      Step f ((.setQuantum value, done), b) { f with scullQuantum := value }
  | setQset {f : Flat} {value : Int} {b : Bool} :
      Step f ((.setQset value, done), b) { f with scullQset := value }
  | readEnd {f : Flat} {room count pos : ℕ} {b : Bool} (hpos : f.size ≤ pos) :
      Step f ((.read room count pos, nothing pos), b) f
  /-- Nothing has been written to the quantum of the position. -/
  | readHole {f : Flat} {room count pos : ℕ} {b : Bool}
      (hhole : ∀ p, p / f.q = pos / f.q → f.cell (f.key p) = none) :
      Step f ((.read room count pos, nothing pos), b) f
  | read {f : Flat} {room count pos : ℕ} {bytes : List UInt8} {b : Bool}
      (hreads : f.Reads count pos bytes) : Step f ((.read room count pos, gave room pos bytes), b) f
  | starved {f : Flat} {buf : List UInt8} {count pos : ℕ} :
      Step f ((.write buf count pos, noMemory pos), true) f
  /-- The caller's buffer ends too early: what there is of it is written, and then zeros. -/
  | fault {f : Flat} {buf : List UInt8} {count pos : ℕ} (hbuf : buf.length < moved f.q count pos) :
      Step f ((.write buf count pos, { ret := efault, fPos := pos, out := [] }), false)
        { f with cell := put f.cell (f.key pos) (padded buf (moved f.q count pos)) }
  | write {f : Flat} {buf : List UInt8} {count pos : ℕ} (hbuf : moved f.q count pos ≤ buf.length) :
      Step f ((.write buf count pos,
          { ret := moved f.q count pos, fPos := pos + moved f.q count pos, out := [] }), false)
        { f with
          cell := put f.cell (f.key pos) (buf.take (moved f.q count pos))
          size := max f.size (pos + moved f.q count pos) }

/-- The file when the module has been loaded. -/
def start (quantum qset : Int) : Flat where
  q := 0
  n := 0
  size := 0
  cell _ := none
  scullQuantum := quantum
  scullQset := qset

end Flat

end Scull
