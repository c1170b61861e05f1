import Av1Tiling.Bits
import Av1Tiling.StreamError

/-!
# Reading bits

A reader is a position and the bits that are left. Reads are steps of `Read`, which keeps the
reader also where a step fails: a read that runs out of data has used up what was there, and what
follows starts from that state.
-/

namespace Av1Tiling

/-- A position in a stream of bits. -/
structure BitReader where
  /-- Number of bits read so far. -/
  pos : Nat
  /-- The bits that are left. -/
  rest : Bits
  deriving Repr, DecidableEq

/-- A step of reading. A failed step, too, leaves a reader behind. -/
abbrev Read := EStateM (Failure StreamError) BitReader

namespace BitReader

/-- A reader in front of `bytes`. -/
def ofBytes (bytes : Bytes) : BitReader :=
  ⟨0, Bits.ofBytes bytes⟩

/-- The reader sits between two bytes. -/
def aligned (reader : BitReader) : Bool :=
  reader.pos % 8 == 0

/-- Number of bytes of which some bit was read. -/
def bytePos (reader : BitReader) : Nat :=
  (reader.pos + 7) / 8

/-- The reader behind the last bit. -/
def atEnd (reader : BitReader) : BitReader :=
  ⟨reader.pos + reader.rest.length, []⟩

/-- Bits up to the next byte boundary. -/
def untilAligned (reader : BitReader) : Nat :=
  (8 - reader.pos % 8) % 8

end BitReader

namespace Read

/-- Number of bits read so far. -/
def pos : Read Nat :=
  return (← get).pos

/-- Reads one bit. -/
def bit : Read Bool := fun reader =>
  match reader.rest with
  | [] => .error (.raised (.exhausted reader.pos)) reader
  | b :: rest => .ok b ⟨reader.pos + 1, rest⟩

/-- Reads a bit if there is one. -/
def bitIf (present : Bool) : Read Bool :=
  if present then bit else return false

/-- Reads the eight bits of a whole byte. Bits too few for a byte are used up. -/
def octet : Read Nat := fun reader =>
  match reader.rest with
  | b0 :: b1 :: b2 :: b3 :: b4 :: b5 :: b6 :: b7 :: rest =>
    .ok (Bits.toNat [b0, b1, b2, b3, b4, b5, b6, b7]) ⟨reader.pos + 8, rest⟩
  | _ => .error (.raised (.exhausted reader.atEnd.pos)) reader.atEnd

/-- Reads `count` more bits behind those that make up `value`, whole bytes where the reader is
    aligned and single bits elsewhere. -/
def extend (value count : Nat) : Read Nat := fun reader =>
  if count = 0 then
    .ok value reader
  else if reader.aligned ∧ 8 ≤ count then
    (octet >>= fun low => extend (256 * value + low) (count - 8)) reader
  else
    (bit >>= fun low => extend (2 * value + low.toNat) (count - 1)) reader
termination_by count

/-- Reads a number of `count` bits, at most 64. -/
def bits (count : Nat) : Read Nat :=
  if 64 < count then throw (.raised .readTooWide) else extend 0 count

/-- Skips `count` bits. -/
def skip (count : Nat) : Read Unit := do
  if count = 0 then
    return
  else
    let _ ← bits (min count 64)
    skip (count - min count 64)
termination_by count

/-- Skips to the next byte boundary. -/
def align : Read Unit :=
  modify fun reader =>
    ⟨reader.pos + reader.untilAligned, reader.rest.drop reader.untilAligned⟩

/-- Up to `count` whole bytes of `rest`, and what is left. -/
def takeBytes : (count : Nat) → (rest : Bits) → Bytes × Bits
  | count + 1, b0 :: b1 :: b2 :: b3 :: b4 :: b5 :: b6 :: b7 :: rest =>
    let (bytes, rest) := takeBytes count rest
    (Bits.toByte [b0, b1, b2, b3, b4, b5, b6, b7] :: bytes, rest)
  | _, rest => ([], rest)

/-- Reads `count` bytes, or as many as there are. A read that comes up short uses up the bits that
    are too few for a byte. -/
def bytes (count : Nat) : Read Bytes := fun reader =>
  let (found, rest) := takeBytes count reader.rest
  let reader := ⟨reader.pos + 8 * found.length, rest⟩
  .ok found (if found.length < count then reader.atEnd else reader)

/-- Reads a number of 32 bits as four bytes. -/
def word : Read Nat := do
  let found ← bytes 4
  if found.length < 4 then throw (.raised .shortRead)
  return Bytes.toNatBE found

/-- Reads the zeros up to the next byte boundary. -/
def zeroPadding : Read Unit := do
  go (← get).untilAligned
where
  /-- Reads `count` zeros. -/
  go : (count : Nat) → Read Unit
    | 0 => return
    | count + 1 => do
      if ← bit then throw (.raised .alignmentBitSet)
      go count

/-- Runs a step on `bytes` alone. -/
def runOn {α : Type} (step : Read α) (bytes : Bytes) :
    EStateM.Result (Failure StreamError) BitReader α :=
  step.run (.ofBytes bytes)

end Read

end Av1Tiling
