import Av1Tiling.Bits.Reader
import Av1Tiling.Bits.Writer
import Av1Tiling.Code.Log2

/-!
# Variable length unsigned integers

A value plus one is written in binary behind one zero for each of its bits but the first.
Thirty-two zeros or more stand for the largest 32 bit number, and no digits follow them.
-/

namespace Av1Tiling.Uvlc

/-- The largest value. -/
def maxValue : Nat := 2 ^ 32 - 1

/-- Fails for a value outside of `min..=max`. -/
def check (value min max : Nat) : Except StreamError Unit :=
  if value < min ∨ max < value then .error (.valueOutside "uvlc" value min max) else .ok ()

/-- Counts the zeros in front of the next one, and reads that one too. -/
def readZeros : Read Nat := fun reader =>
  let zeros := (reader.rest.takeWhile (!·)).length
  if zeros = reader.rest.length then
    .error (.raised (.exhausted (reader.pos + zeros))) reader.atEnd
  else
    .ok zeros ⟨reader.pos + zeros + 1, reader.rest.drop (zeros + 1)⟩

/-- Reads a value of `min..=max`. -/
def read (min max : Nat) : Read Nat := do
  let zeros ← readZeros
  let value ← if 32 ≤ zeros then pure maxValue else (· + 2 ^ zeros - 1) <$> Read.bits zeros
  check value min max
  return value

/-- Writes a value of `min..=max`. -/
def write (value min max : Nat) : Write Unit := do
  check value min max
  if value = maxValue then
    Write.bits 0 32
    Write.bit true
  else
    let zeros := floorLog2 (value + 1)
    Write.bits 0 zeros
    Write.bits (value + 1) (zeros + 1)

end Av1Tiling.Uvlc
