import Av1Tiling.Bytes.Cursor

/-!
# Reading bits off a cursor

Bits come out of bytes. A `ByteReader` takes the bytes off a cursor as it needs them and keeps the one
that it reads single bits of. The whole bytes of a number, and bytes that are read between two bytes,
go past the one that it keeps.
-/

namespace Av1Tiling

/-- A cursor on some bytes from which single bits are read. -/
structure ByteReader where
  cursor : Cursor
  /-- The byte that was taken for single bits last. -/
  byte : UInt8
  /-- Number of bits of `byte` that were read. There are none between two bytes, where `byte` is not
      looked at any more. -/
  used : Nat
  /-- Number of bits read so far. -/
  pos : Nat
  deriving Repr, DecidableEq

/-- A step of reading off a cursor. -/
abbrev ByteRead := EStateM (Failure StreamError) ByteReader

namespace ByteReader

/-- A reader in front of `data`. -/
def ofBytes (data : Bytes) : ByteReader :=
  ⟨.ofBytes data, 0, 0, 0⟩

/-- The reader sits between two bytes. -/
def aligned (reader : ByteReader) : Bool :=
  reader.used == 0

end ByteReader

namespace ByteRead

/-- Takes the next byte off the cursor. -/
def nextByte : ByteRead UInt8 := fun reader =>
  match reader.cursor.rest with
  | [] => .error (.raised (.exhausted reader.pos)) reader
  | byte :: _ => .ok byte { reader with cursor := reader.cursor.seek (reader.cursor.pos + 1) }

/-- Begins the next byte, unless there is one that was begun. -/
def beginByte : ByteRead Unit := fun reader =>
  if reader.used = 0 then
    (nextByte >>= fun byte => modify fun reader => { reader with byte }) reader
  else
    .ok () reader

/-- Reads one bit. -/
def bit : ByteRead Bool := do
  beginByte
  let reader ← get
  set { reader with used := (reader.used + 1) % 8, pos := reader.pos + 1 }
  return reader.byte.toNat.testBit (7 - reader.used)

/-- Reads the eight bits of a whole byte. -/
def octet : ByteRead Nat := do
  let byte ← nextByte
  modify fun reader => { reader with pos := reader.pos + 8 }
  return byte.toNat

/-- Reads `count` more bits behind those that make up `value`, whole bytes between two bytes and
    single bits elsewhere. -/
def extend (value count : Nat) : ByteRead Nat := fun reader =>
  if count = 0 then
    .ok value reader
  else if reader.used = 0 ∧ 8 ≤ count then
    (octet >>= fun low => extend (256 * value + low) (count - 8)) reader
  else
    (bit >>= fun low => extend (2 * value + low.toNat) (count - 1)) reader
termination_by count

/-- Reads a number of `count` bits, at most 64. -/
def bits (count : Nat) : ByteRead Nat :=
  if 64 < count then throw (.raised .readTooWide) else extend 0 count

/-- Skips `count` bits. -/
def skip (count : Nat) : ByteRead Unit := do
  if count = 0 then
    return
  else
    let _ ← bits (min count 64)
    skip (count - min count 64)
termination_by count

/-- Skips to the next byte boundary. -/
def align : ByteRead Unit :=
  modify fun reader =>
    if reader.used = 0 then reader
    else { reader with used := 0, pos := reader.pos + (8 - reader.used) }

/-- Reads up to `count` bytes bit by bit. It comes up short where the bits end. -/
def eachByte : (count : Nat) → ByteRead Bytes
  | 0 => return []
  | count + 1 => fun reader =>
    match bits 8 reader with
    | .ok low behind => (eachByte count >>= fun found => pure (UInt8.ofNat low :: found)) behind
    | .error (.raised error) behind =>
      if error.kind = .unexpectedEof then .ok [] behind else .error (.raised error) behind
    | .error (.fault cause) behind => .error (.fault cause) behind

/-- Reads `count` bytes, or as many as there are: off the cursor between two bytes, and bit by bit
    elsewhere. -/
def bytes (count : Nat) : ByteRead Bytes := fun reader =>
  if reader.used = 0 then
    let found := reader.cursor.rest.take count
    .ok found { reader with
      cursor := reader.cursor.seek (reader.cursor.pos + found.length)
      pos := reader.pos + 8 * found.length }
  else
    eachByte count reader

end ByteRead

end Av1Tiling
