/-
`sum` of `mysum.c`.

The parameters and `result` are `int`, and the kernel is compiled with `-fwrapv`, so
`Int32` has their arithmetic.  The loop ends when `from` has passed `to`, which nothing
bounds beforehand, so it is given a number of iterations.

`from` and `to` are keywords here.
-/
import Mathlib.Tactic.Common

namespace Mysum

/-- `while (from <= to) { result += from; from++; }`: the `result` it leaves. -/
def sumLoop (to_ : Int32) : ℕ → Int32 → Int32 → Option Int32
  | 0, _, _ => none
  | fuel + 1, from_, result =>
      if from_ ≤ to_ then sumLoop to_ fuel (from_ + 1) (result + from_) else some result

/-- `sum`: the `result` it leaves. -/
def sum (from_ to_ : Int32) (fuel : ℕ) : Option Int32 :=
  if from_ > to_ then some 0 else sumLoop to_ fuel from_ 0

end Mysum
