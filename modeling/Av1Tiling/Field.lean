import Av1Tiling.Code.Leb128
import Av1Tiling.Code.LittleEndian
import Av1Tiling.Code.Subexp
import Av1Tiling.Code.Uvlc

/-!
# Fields

A field says how one element of a header is coded and which values it may have. The same field
reads and writes the element, so a header and its writer can share their fields.
-/

namespace Av1Tiling

/-- How an element is coded. -/
inductive Coding
  /-- A number of `count` bits. -/
  | bits (count : Nat)
  /-- A little-endian number of `size` bytes. -/
  | littleEndian (size : Nat)
  | leb128
  | uvlc
  /-- A non-symmetric code for the values below `bound`. -/
  | nonSymmetric (bound : Nat)
  /-- One bit per step from the least legal value to the greatest. -/
  | increment
  /-- A subexponential code for the values below `bound`. -/
  | subexp (bound : Nat)
  deriving Repr, DecidableEq

/-- An element of a header. -/
structure Field where
  /-- What error messages call the element. -/
  name : String
  coding : Coding
  /-- The least legal value. -/
  min : Nat
  /-- The greatest legal value. -/
  max : Nat
  deriving Repr, DecidableEq

namespace Field

/-- The greatest value of any field. -/
def maxWord : Nat := 2 ^ 32 - 1

/-- The greatest value of `count` bits that a field can have. -/
def maxOfBits (count : Nat) : Nat :=
  if 32 ≤ count then maxWord else 2 ^ count - 1

/-- A number of `count` bits. -/
def bits (name : String) (count : Nat) : Field :=
  ⟨name, .bits count, 0, maxOfBits count⟩

/-- A single bit. -/
def flag (name : String) : Field :=
  bits name 1

/-- A little-endian number of `size` bytes. -/
def littleEndian (name : String) (size : Nat) : Field :=
  ⟨name, .littleEndian size, 0, maxOfBits (8 * size)⟩

def leb128 (name : String) : Field :=
  ⟨name, .leb128, 0, maxWord⟩

def uvlc (name : String) : Field :=
  ⟨name, .uvlc, 0, maxWord⟩

/-- A value below `bound`. -/
def nonSymmetric (name : String) (bound : Nat) : Field :=
  ⟨name, .nonSymmetric bound, 0, bound - 1⟩

/-- A value of `min..=max`, a bit per step from `min`. -/
def increment (name : String) (min max : Nat) : Field :=
  ⟨name, .increment, min, max⟩

/-- A value below `bound`, small ones with few bits. -/
def subexp (name : String) (bound : Nat) : Field :=
  ⟨name, .subexp bound, 0, bound - 1⟩

/-- The field with other legal values. -/
def withRange (field : Field) (min max : Nat) : Field :=
  { field with min, max }

/-- Fails for a value that is not legal. -/
def check (field : Field) (value : Nat) : Except StreamError Unit :=
  if value < field.min ∨ field.max < value then
    .error (.valueOutside field.name value field.min field.max)
  else
    .ok ()

/-- Reads the element, whatever its value. -/
def readCode (field : Field) : Read Nat :=
  match field.coding with
  | .bits count => Read.bits count
  | .littleEndian size => LittleEndian.read size
  | .leb128 => Leb128.read
  | .uvlc => Uvlc.read 0 Uvlc.maxValue
  | .nonSymmetric bound => NonSymmetric.read bound
  | .increment => Increment.read field.min field.max
  | .subexp bound => Subexp.read bound

/-- Reads the element. -/
def read (field : Field) : Read Nat := do
  let value ← field.readCode
  field.check value
  return value

/-- Reads an element of one bit. -/
def readFlag (field : Field) : Read Bool := do
  return (← field.read) != 0

/-- Writes the code of a legal value. -/
def writeCode (field : Field) (value : Nat) : Write Unit :=
  match field.coding with
  | .bits count => Write.bits value count
  | .littleEndian size => LittleEndian.write value size
  | .leb128 => do let _ ← Leb128.write value
  | .uvlc => Uvlc.write value 0 Uvlc.maxValue
  | .nonSymmetric bound => NonSymmetric.write value bound
  | .increment => Increment.write value field.min field.max
  | .subexp bound => Subexp.write value bound

/-- Writes the element. -/
def write (field : Field) (value : Nat) : Write Unit := do
  field.check value
  field.writeCode value

/-- Writes an element of one bit. -/
def writeFlag (field : Field) (value : Bool) : Write Unit :=
  field.write value.toNat

end Field

end Av1Tiling
