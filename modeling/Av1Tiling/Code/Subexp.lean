import Av1Tiling.Code.Increment
import Av1Tiling.Code.NonSymmetric

/-!
# Subexponential codes

The values below a bound lie in bins that grow by powers of two. A value is the index of its bin as
an increment, then its place in the bin as plain bits, or as a non-symmetric code in the last bin.
-/

namespace Av1Tiling.Subexp

/-- The values of one bin but the last. -/
structure Bin where
  /-- Number of bits of a place in the bin. -/
  width : Nat
  /-- The smallest value in the bin. -/
  offset : Nat
  deriving Repr, DecidableEq

/-- The bin of a given index: eight values, then the next eight, then twice as many each time. -/
def bin (index : Nat) : Bin :=
  if index = 0 then ⟨3, 0⟩ else ⟨2 + index, 2 ^ (2 + index)⟩

/-- The index of the last bin for the values below `bound`. -/
def lastBin (bound : Nat) : Except StreamError Nat :=
  if bound = 0 then .error .subexpEmpty else .ok (floorLog2 (bound - 1) - 3)

/-- Reads a value below `bound`. -/
def read (bound : Nat) : Read Nat := do
  let last ← lastBin bound
  let index ← Increment.read 0 last
  let offset := (bin index).offset
  if index < last then
    return (← Read.bits (bin index).width) + offset
  else
    return (← NonSymmetric.read (bound - offset)) + offset

/-- Writes a value below `bound`. -/
def write (value bound : Nat) : Write Unit := do
  let last ← lastBin bound
  if bound ≤ value then throw (.raised (.subexpOutside value bound))
  let natural := if value < 8 then 0 else floorLog2 value - 2
  let index := min natural last
  let offset := (bin index).offset
  Increment.write index 0 last
  if index < last then
    Write.bits (value - offset) (bin index).width
  else
    NonSymmetric.write (value - offset) (bound - offset)

end Av1Tiling.Subexp
