import Av1Tiling.Bits.Reader
import Av1Tiling.Bits.Writer
import Av1Tiling.Code.Log2

/-!
# Non-symmetric codes

A code for the values below a bound that need not be a power of two: the smaller values take one
bit less than the others.
-/

namespace Av1Tiling.NonSymmetric

/-- The shape of the code for the values below some bound. -/
structure Shape where
  /-- Number of bits of the smaller values. -/
  short : Nat
  /-- Number of values that take only `short` bits. -/
  shortCount : Nat
  deriving Repr, DecidableEq

/-- The code for the values below `bound`. -/
def shape (bound : Nat) : Except StreamError Shape :=
  if bound = 0 then
    .error .nonSymmetricEmpty
  else
    .ok ⟨floorLog2 bound, 2 ^ (floorLog2 bound + 1) - bound⟩

/-- Reads a value below `bound`. -/
def read (bound : Nat) : Read Nat := do
  let code ← shape bound
  let value ← Read.bits code.short
  if value < code.shortCount then
    return value
  else
    let low ← Read.bit
    return 2 * value - code.shortCount + low.toNat

/-- Writes a value below `bound`. -/
def write (value bound : Nat) : Write Unit := do
  let code ← shape bound
  if bound ≤ value then throw (.raised (.nonSymmetricOutside value bound))
  if value < code.shortCount then
    Write.bits value code.short
  else
    let above := value - code.shortCount
    Write.bits (code.shortCount + above / 2) code.short
    Write.bit (above % 2 == 1)

end Av1Tiling.NonSymmetric
