import Av1Tiling.Bits.Reader
import Av1Tiling.Bits.Writer

/-!
# Little-endian numbers

Numbers of up to eight bytes, lowest byte first, at any bit of a stream.
-/

namespace Av1Tiling.LittleEndian

/-- The most bytes a number may have. -/
def maxBytes : Nat := 8

/-- Reads a number of `size` bytes, byte by byte. -/
def readBytes : (size : Nat) → Read Nat
  | 0 => return 0
  | size + 1 => do
    let low ← Read.bits 8
    return low + 256 * (← readBytes size)

/-- Reads a number of `size` bytes. -/
def read (size : Nat) : Read Nat :=
  if maxBytes < size then throw (.raised (.littleEndianTooWide size)) else readBytes size

/-- Writes a number of `size` bytes. -/
def write (value size : Nat) : Write Unit := do
  if maxBytes < size ∨ 256 ^ size ≤ value then throw (.raised (.littleEndianOutside value size))
  (Bytes.ofNatLE size value).forM fun byte => Write.bits byte.toNat 8

end Av1Tiling.LittleEndian
