import Av1Tiling.Bits.Reader
import Av1Tiling.Bits.Writer

/-!
# LEB128

Numbers in groups of seven bits, lowest group first, where the top bit of a byte says that another
byte follows. A reader takes at most eight bytes and refuses values of more than 32 bits; a writer
uses the fewest bytes.
-/

namespace Av1Tiling.Leb128

/-- The largest value a reader accepts. -/
def maxValue : Nat := 2 ^ 32 - 1

/-- The most bytes a reader takes. -/
def maxBytes : Nat := 8

/-- Reads up to `count` groups, and stops behind the first that none follows. -/
def readGroups : (count : Nat) → Read Nat
  | 0 => return 0
  | count + 1 => do
    let byte ← Read.bits 8
    if byte < 128 then
      return byte
    else
      return byte - 128 + 128 * (← readGroups count)

/-- Reads one value. -/
def read : Read Nat := do
  let value ← readGroups maxBytes
  if maxValue < value then throw (.raised .leb128TooLarge)
  return value

/-- The fewest groups that make up `value`. -/
def encode (value : Nat) : Bytes :=
  if value < 128 then
    [UInt8.ofNat value]
  else
    UInt8.ofNat (value % 128 + 128) :: encode (value / 128)
termination_by value

/-- Number of bytes that `value` takes. -/
def size (value : Nat) : Nat :=
  if value < 128 then 1 else size (value / 128) + 1
termination_by value

/-- Writes one value and yields the number of bytes it took. -/
def write (value : Nat) : Write Nat := do
  (encode value).forM fun byte => Write.bytes [byte]
  return (encode value).length

theorem length_encode (value : Nat) : (encode value).length = size value := by
  fun_induction encode value with
  | case1 value h => rw [size, if_pos h]; rfl
  | case2 value h ih => rw [size, if_neg h, List.length_cons, ih]

end Av1Tiling.Leb128
