import Av1Tiling.Bits.Reader
import Av1Tiling.Bits.Writer

/-!
# Increments

A value of `min..=max` as one bit per step up from `min`, closed by a zero unless `max` is reached.
-/

namespace Av1Tiling.Increment

/-- Reads a value of `min..=max`. -/
def read (min max : Nat) : Read Nat := do
  if min < max then
    if ← Read.bit then read (min + 1) max else return min
  else
    return min
termination_by max - min

/-- Writes a value of `min..=max`. -/
def write (value min max : Nat) : Write Unit := do
  let top := Nat.max max min
  if value < min ∨ top < value then throw (.raised (.valueOutside "increment" value min top))
  Write.fill true (value - min)
  if value < max then Write.bit false

end Av1Tiling.Increment
