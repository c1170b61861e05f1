import Av1Tiling.Obu.Stream

/-!
# Writing OBUs of unknown size

The size of a payload is mostly known only when it has been written. A writer leaves room for the
longest size, writes the payload behind it, and then puts the shortest code of the size in place
and moves the payload down to it.
-/

namespace Av1Tiling

/-- Room that was left for a size. -/
structure SizeField where
  /-- Where the room starts in the output. -/
  offset : Nat
  deriving Repr, DecidableEq

namespace Emit

/-- Number of bytes left for a size. -/
def reservation : Nat := 8

/-- The largest size of a payload. -/
def maxPayload : Nat := 2 ^ 32 - 1

/-- Number of bytes written so far. -/
def size : Emit Nat :=
  return (← get).buffer.size

/-- Fails in the middle of a byte. -/
def requireAligned (boundary : Boundary) : Emit Unit := do
  unless (← get).aligned do throw (.raised (.unaligned boundary))

/-- Leaves room for a size, as two numbers of 32 bits. -/
def reserveSize : Emit SizeField := do
  requireAligned .reserveSize
  let offset ← size
  Write.bytes (Bytes.ofNatBE 4 0)
  Write.bytes (Bytes.ofNatBE 4 0)
  return { offset }

/-- A change of the output in place. -/
def rework (change : BoundedBuffer → Except StreamError BoundedBuffer) : Emit Unit := do
  let writer ← get
  let buffer ← change writer.buffer
  set { writer with buffer }

/-- Fills the room in with the size of all that was written behind it, closes the gap and yields
    the size. -/
def finalizeSize (field : SizeField) : Emit Nat := do
  requireAligned .finalizeSize
  let start := field.offset + reservation
  let stop ← size
  let length ← Checked.sub stop start
  if maxPayload < length then throw (.raised .sizeTooLarge)
  let code := Leb128.encode length
  rework fun buffer => buffer.patch field.offset code
  rework fun buffer => buffer.move start stop (field.offset + code.length)
  rework fun buffer => .ok (buffer.truncate (field.offset + code.length + length))
  return length

/-- Closes a payload: a one, and zeros to the end of the byte. -/
def trailingBits : Emit Unit := do
  Write.bit true
  Write.align

/-- Writes an OBU and yields the size of its payload. The payload is closed by trailing bits if
    `trailing` says so, and has to end between two bytes otherwise. -/
def obu (header : ObuHeader) (trailing : Bool) (payload : Emit Unit) : Emit Nat := do
  requireAligned .startObu
  let _ ← header.writeWithoutSize
  let field ← reserveSize
  payload
  if trailing then trailingBits
  requireAligned .endObu
  finalizeSize field

/-- Writes bytes that are OBUs already. -/
def raw (data : Bytes) : Emit Unit :=
  Write.bytes data

/-- Fills up the last byte and yields all that was written. -/
def finish : Emit Bytes := do
  let buffer ← Write.finish
  return buffer.contents

end Emit

end Av1Tiling
