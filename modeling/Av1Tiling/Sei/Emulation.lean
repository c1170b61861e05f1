import Av1Tiling.Bytes

/-!
# Emulation prevention

Inside a NAL unit two zeros in front of a byte of at most three would look like the start of another
unit, so a three is put between them. `insert` puts it there and `remove` takes it out again.
-/

namespace Av1Tiling.Sei.Emulation

/-- The byte that is put between. -/
def guardByte : UInt8 := 3

/-- Length of the run of zeros that ends with `byte` and has `zeros` others before it. -/
def countZeros (zeros : Nat) (byte : UInt8) : Nat :=
  if byte = 0 then zeros + 1 else 0

/-- Takes the guard bytes out, behind a run of `zeros`. -/
def removeFrom (zeros : Nat) : Bytes → Bytes
  | [] => []
  | byte :: rest =>
    if 2 ≤ zeros ∧ byte = guardByte then
      removeFrom 0 rest
    else
      byte :: removeFrom (countZeros zeros byte) rest

/-- Puts guard bytes in, behind a run of `zeros`. -/
def insertFrom (zeros : Nat) : Bytes → Bytes
  | [] => []
  | byte :: rest =>
    if 2 ≤ zeros ∧ byte ≤ guardByte then
      guardByte :: byte :: insertFrom (countZeros 0 byte) rest
    else
      byte :: insertFrom (countZeros zeros byte) rest

/-- The bytes that a NAL unit carries. -/
def remove (unit : Bytes) : Bytes :=
  removeFrom 0 unit

/-- The NAL unit that carries some bytes. -/
def insert (bytes : Bytes) : Bytes :=
  insertFrom 0 bytes

end Av1Tiling.Sei.Emulation
