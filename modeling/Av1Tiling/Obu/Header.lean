import Av1Tiling.Field

/-!
# OBU headers

An OBU opens with one byte, or two with an extension, and mostly its size in LEB128. `read` and
`write` share the fields of the header.
-/

namespace Av1Tiling

/-- What an OBU holds. -/
inductive ObuType
  | sequenceHeader
  | temporalDelimiter
  | frameHeader
  | tileGroup
  | metadata
  | frame
  | redundantFrameHeader
  | tileList
  | padding
  /-- A code without a meaning. -/
  | reserved (code : Nat)
  deriving Repr, DecidableEq

namespace ObuType

/-- The type a code stands for. -/
def ofCode : Nat → ObuType
  | 1 => sequenceHeader
  | 2 => temporalDelimiter
  | 3 => frameHeader
  | 4 => tileGroup
  | 5 => metadata
  | 6 => frame
  | 7 => redundantFrameHeader
  | 8 => tileList
  | 15 => padding
  | code => reserved code

def code : ObuType → Nat
  | sequenceHeader => 1
  | temporalDelimiter => 2
  | frameHeader => 3
  | tileGroup => 4
  | metadata => 5
  | frame => 6
  | redundantFrameHeader => 7
  | tileList => 8
  | padding => 15
  | reserved code => code

/-- What messages call the type. -/
def name : ObuType → String
  | sequenceHeader => "SequenceHeader"
  | temporalDelimiter => "TemporalDelimiter"
  | frameHeader => "FrameHeader"
  | tileGroup => "TileGroup"
  | metadata => "Metadata"
  | frame => "Frame"
  | redundantFrameHeader => "RedundantFrameHeader"
  | tileList => "TileList"
  | padding => "Padding"
  | reserved code => s!"Reserved({code})"

@[simp] theorem code_ofCode (n : Nat) : (ofCode n).code = n := by
  unfold ofCode
  split <;> rfl

end ObuType

/-- The layers an OBU belongs to. -/
structure ObuExtension where
  temporalId : Nat
  spatialId : Nat
  deriving Repr, DecidableEq

/-- The header of an OBU. -/
structure ObuHeader where
  type : ObuType
  /-- Number of payload bytes, where the header says it. -/
  size : Option Nat
  extension : Option ObuExtension
  deriving Repr, DecidableEq

namespace ObuHeader

def forbiddenBit : Field := (Field.flag "obu_forbidden_bit").withRange 0 0
def typeField : Field := .bits "obu_type" 4
def extensionFlag : Field := .flag "obu_extension_flag"
def hasSizeField : Field := .flag "obu_has_size_field"
def reservedBit : Field := .flag "obu_reserved_1bit"
def temporalIdField : Field := .bits "temporal_id" 3
def spatialIdField : Field := .bits "spatial_id" 2
def extensionReserved : Field := .bits "extension_header_reserved_3bits" 3

/-- The temporal layer, the lowest without an extension. -/
def temporalId (header : ObuHeader) : Nat :=
  (header.extension.map ObuExtension.temporalId).getD 0

/-- The spatial layer, the lowest without an extension. -/
def spatialId (header : ObuHeader) : Nat :=
  (header.extension.map ObuExtension.spatialId).getD 0

/-- Number of bytes in front of the size. -/
def fixedSize (header : ObuHeader) : Nat :=
  if header.extension.isSome then 2 else 1

/-- Number of bytes of the header. -/
def byteSize (header : ObuHeader) : Nat :=
  header.fixedSize + (header.size.map Leb128.size).getD 0

/-- Reads the second byte of a header. -/
def readExtension : Read ObuExtension := do
  let temporalId ← temporalIdField.read
  let spatialId ← spatialIdField.read
  let _ ← extensionReserved.read
  return { temporalId, spatialId }

/-- Reads what may be left out. -/
def readOptional {α : Type} (present : Bool) (step : Read α) : Read (Option α) :=
  if present then some <$> step else return none

/-- Reads what follows the forbidden bit. Reserved bits may have any value. -/
def readFields : Read ObuHeader := do
  let type := ObuType.ofCode (← typeField.read)
  let extended ← extensionFlag.readFlag
  let sized ← hasSizeField.readFlag
  let _ ← reservedBit.read
  let extension ← readOptional extended readExtension
  let size ← readOptional sized Leb128.read
  return { type, size, extension }

/-- Reads a header. -/
def read : Read ObuHeader := do
  let _ ← forbiddenBit.read
  readFields

/-- Writes the bytes in front of the size. -/
def writeFixed (header : ObuHeader) (sized : Bool) : Write Unit := do
  forbiddenBit.write 0
  typeField.write header.type.code
  extensionFlag.writeFlag header.extension.isSome
  hasSizeField.writeFlag sized
  reservedBit.write 0
  if let some extension := header.extension then
    temporalIdField.write extension.temporalId
    spatialIdField.write extension.spatialId
    extensionReserved.write 0

/-- Writes a header and yields the number of its bytes. Only whole bytes reach the output. -/
def write (header : ObuHeader) : Write Nat := do
  Write.aside (header.writeFixed header.size.isSome) header.fixedSize
  match header.size with
  | some size => return header.fixedSize + (← Leb128.write size)
  | none => return header.fixedSize

/-- Writes a header that promises a size, but not the size, and yields the number of bytes. -/
def writeWithoutSize (header : ObuHeader) : Write Nat := do
  Write.aside (header.writeFixed true) header.fixedSize
  return header.fixedSize

end ObuHeader

end Av1Tiling
