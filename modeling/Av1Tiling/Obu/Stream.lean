import Av1Tiling.Bytes.Cursor
import Av1Tiling.Obu.Header
import Av1Tiling.ObuError

/-!
# Streams of OBUs

A temporal unit is a run of OBUs each of which says how long it is. Reading one yields it with its
place in the unit, and `Obu.readAll` goes on behind an OBU that could not be read.
-/

namespace Av1Tiling

/-- An OBU and its place in a temporal unit. -/
structure Obu where
  header : ObuHeader
  /-- Where the header starts. -/
  offset : Nat
  /-- Number of bytes of the header. -/
  headerSize : Nat
  payload : Bytes
  deriving Repr, DecidableEq

/-- A step that writes OBUs. -/
abbrev Emit := EStateM (Failure ObuError) BitWriter

namespace Obu

/-- Where the payload starts in the unit. -/
def payloadOffset (obu : Obu) : Nat :=
  obu.offset + obu.headerSize

/-- Number of bytes of header and payload. -/
def unitSize (obu : Obu) : Nat :=
  obu.headerSize + obu.payload.length

/-- Reads a header and leaves the cursor behind the last byte of it that was looked at. -/
def readHeader : EStateM (Failure StreamError) Cursor ObuHeader := fun cursor =>
  match Read.runOn ObuHeader.read cursor.rest with
  | .ok header reader => .ok header (cursor.seek (cursor.pos + reader.bytePos))
  | .error cause reader => .error cause (cursor.seek (cursor.pos + reader.bytePos))

/-- What the failure to read the header at `offset` means for the unit. -/
def headerError (offset : Nat) (error : StreamError) : ObuError :=
  if error.kind = .unexpectedEof then .headerCutShort offset else .stream error

/-- Reads the next OBU, header and payload. -/
def read : EStateM (Failure ObuError) Cursor Obu := fun start =>
  match readHeader start with
  | .error cause cursor => .error (cause.map (headerError start.pos)) cursor
  | .ok header cursor =>
    match header.size with
    | none => .error (.raised (.sizeMissing start.pos)) cursor
    | some size =>
      match cursor.extract size with
      | .error cause => .error (cause.map fun _ => .payloadCutShort size cursor.remaining) cursor
      | .ok (payload, behind) =>
        .ok { header, offset := start.pos, headerSize := cursor.pos - start.pos, payload } behind

/-- What the next call yields and where it leaves the cursor. There is none behind the last byte. -/
def next (cursor : Cursor) : Option (Except (Failure ObuError) Obu × Cursor) :=
  if cursor.remaining = 0 then
    none
  else
    match read cursor with
    | .ok obu behind => some (.ok obu, behind)
    | .error cause behind => some (.error cause, behind)

/-- Reads up to `count` OBUs until nothing remains, each on its own, behind errors too. -/
def readMany : (count : Nat) → Cursor → List (Except (Failure ObuError) Obu) × Cursor
  | 0, cursor => ([], cursor)
  | count + 1, cursor =>
    if cursor.remaining = 0 then
      ([], cursor)
    else
      match read cursor with
      | .ok obu cursor =>
        let (items, cursor) := readMany count cursor
        (.ok obu :: items, cursor)
      | .error (.raised error) cursor =>
        let (items, cursor) := readMany count cursor
        (.error (.raised error) :: items, cursor)
      | .error (.fault cause) cursor => ([.error (.fault cause)], cursor)

/-- Everything that can be read from a unit, and where reading ends. Every attempt takes at least
    one byte, so there are no more of them than bytes. -/
def readAll (unit : Bytes) : List (Except (Failure ObuError) Obu) × Cursor :=
  readMany unit.length (.ofBytes unit)

/-- Writes an OBU whose payload is known and yields the number of bytes it took. -/
def write (type : ObuType) (extension : Option ObuExtension) (payload : Bytes) : Emit Nat := do
  let header : ObuHeader := { type, size := some payload.length, extension }
  let headerSize ← header.write
  Write.bytes payload
  return headerSize + payload.length

end Obu

end Av1Tiling
