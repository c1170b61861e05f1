import Av1Tiling.Bits.Buffer
import Av1Tiling.Bits.Reader

/-!
# Writing bits

A writer hands each byte to its buffer as soon as the byte is complete and keeps the bits of the
byte it is in the middle of. Writes are steps of `Write`, which keeps the writer also where a step
fails.
-/

namespace Av1Tiling

/-- A stream of bits that is being written. -/
structure BitWriter where
  /-- The complete bytes. -/
  buffer : BoundedBuffer
  /-- The bits of the byte that is being filled. Eight and more of them stand here only after the
      buffer has refused that byte. -/
  pending : Bits
  /-- Number of bits written so far. -/
  written : Nat
  deriving Repr, DecidableEq

/-- A step of writing. A failed step, too, leaves a writer behind. -/
abbrev Write := EStateM (Failure StreamError) BitWriter

namespace BitWriter

/-- A writer behind the contents of `buffer`. -/
def onto (buffer : BoundedBuffer) : BitWriter :=
  ⟨buffer, [], 0⟩

/-- A writer of at most `capacity` bytes. -/
def empty (capacity : Nat) : BitWriter :=
  onto (.empty capacity)

/-- The writer sits between two bytes. -/
def aligned (writer : BitWriter) : Bool :=
  writer.pending.isEmpty

/-- The complete bytes. -/
def contents (writer : BitWriter) : Bytes :=
  writer.buffer.contents

end BitWriter

namespace Write

/-- Hands complete bytes to the buffer, all or none of them. -/
def push (data : Bytes) : Write Unit := fun writer =>
  match writer.buffer.refusal data.length with
  | some refused => .error (.raised refused) writer
  | none => .ok () { writer with buffer := writer.buffer.push data }

/-- Writes one bit.

    The bit that completes a byte fails where the buffer refuses the byte. The eight bits then stay
    pending for good: zeros written afterwards are swallowed, up to the 256th pending bit, and a
    one is a fault. -/
def bit (b : Bool) : Write Unit := fun writer =>
  let pending := writer.pending ++ [b]
  if writer.pending.length = 7 then
    match writer.buffer.refusal 1 with
    | some refused => .error (.raised refused) { writer with pending }
    | none =>
      .ok () ⟨writer.buffer.push [Bits.toByte pending], [], writer.written + 1⟩
  else if 7 < writer.pending.length ∧ (b ∨ writer.pending.length = 255) then
    .error (.fault .refusedByte) writer
  else
    .ok () { writer with pending, written := writer.written + 1 }

/-- Writes `count` copies of one bit. -/
def fill (b : Bool) : (count : Nat) → Write Unit
  | 0 => return
  | count + 1 => do
    bit b
    fill b count

/-- Writes the `count` lowest bits of `value`, at most 64. -/
def bits (value count : Nat) : Write Unit :=
  if 64 < count then throw (.raised .writeTooWide) else (Bits.ofNat count value).forM bit

/-- Fills the current byte up with zeros. -/
def align : Write Unit := do
  let pending := (← get).pending.length
  if pending < 8 then fill false ((8 - pending) % 8) else fill false (256 - pending)

/-- Writes whole bytes: at once where the writer is aligned, bit by bit elsewhere. -/
def bytes (data : Bytes) : Write Unit := do
  if (← get).aligned then
    push data
    modify fun writer => { writer with written := writer.written + 8 * data.length }
  else
    data.forM fun byte => bits byte.toNat 8

/-- The most bits that are copied at once. -/
def copyStep : Nat := 32

/-- Writes the next `count` bits of `reader`, a few at a time. -/
def copyFrom (reader : BitReader) (count : Nat) : Write Unit := do
  if count = 0 then
    return
  else
    match Read.bits (min count copyStep) reader with
    | .ok value reader =>
      bits value (min count copyStep)
      copyFrom reader (count - min count copyStep)
    | .error cause _ => throw cause
termination_by count
decreasing_by
  simp only [copyStep]
  omega

/-- Writes the bits `start..stop` of `source`, whose alignment need not be that of the writer. -/
def copy (source : Bytes) (start stop : Nat) : Write Unit := do
  if stop < start ∨ 8 * source.length < stop then
    throw (.raised (.bitRangeOutside start stop source.length))
  if start % 8 = 0 ∧ stop % 8 = 0 ∧ (← get).aligned then
    bytes (source.slice (start / 8) (stop / 8 - start / 8))
  else
    match Read.skip start (.ofBytes source) with
    | .ok _ reader => copyFrom reader (stop - start)
    | .error cause _ => throw cause

/-- Fills up the last byte and yields the buffer. -/
def finish : Write BoundedBuffer := do
  align
  return (← get).buffer

/-- Runs a step on a writer of its own and passes on the bytes it completed, one at a time. -/
def aside (step : Write Unit) (capacity : Nat) : Write Unit :=
  match step.run (.empty capacity) with
  | .ok _ own => own.contents.forM fun byte => bytes [byte]
  | .error (.raised error) own => do
    own.contents.forM fun byte => bytes [byte]
    throw (.raised error)
  | .error (.fault cause) _ => throw (.fault cause)

end Write

end Av1Tiling
