import Av1Tiling.Checked

/-!
# Stream errors

The ways in which reading from or writing to a stream of bits goes wrong, as causes. Every cause
has a `kind`, which is what the layers above tell apart, and one `message`.
-/

namespace Av1Tiling

/-- What sort of trouble a stream error is. -/
inductive ErrorKind
  /-- The bits are there but do not mean anything. -/
  | invalidData
  /-- The bits end too early. -/
  | unexpectedEof
  /-- The caller asked for something that is never possible. -/
  | invalidInput
  /-- The output has no room left. -/
  | writeZero
  | other
  deriving Repr, DecidableEq

/-- Why a read or a write failed. -/
inductive StreamError
  /-- The bits ended after `bits` of them. -/
  | exhausted (bits : Nat)
  /-- A fixed number of bytes could not be read. -/
  | shortRead
  /-- A cursor holds fewer bytes than were asked for. -/
  | tooFewBytes (requested remaining : Nat)
  /-- One read of more than 64 bits. -/
  | readTooWide
  /-- One write of more than 64 bits. -/
  | writeTooWide
  /-- A buffer has `remaining` of its `capacity` bytes left, and `requested` do not fit. -/
  | bufferFull (requested remaining capacity : Nat)
  /-- A patch reaches past the bytes written so far. -/
  | patchOutside (size offset written : Nat)
  /-- A move reaches past the bytes written so far. -/
  | moveOutside (start stop dest written : Nat)
  /-- A range of bits does not lie in a buffer of `size` bytes. -/
  | bitRangeOutside (start stop size : Nat)
  /-- A value is outside of the range its name allows. -/
  | valueOutside (name : String) (value min max : Nat)
  /-- A LEB128 code has a value of more than 32 bits. -/
  | leb128TooLarge
  /-- A non-symmetric code over no values at all. -/
  | nonSymmetricEmpty
  /-- A value that a non-symmetric code over `0..bound` lacks. -/
  | nonSymmetricOutside (value bound : Nat)
  /-- A subexponential code over no values at all. -/
  | subexpEmpty
  /-- A value that a subexponential code over `0..bound` lacks. -/
  | subexpOutside (value bound : Nat)
  /-- A little-endian number of more than eight bytes. -/
  | littleEndianTooWide (size : Nat)
  /-- A value that needs more than `size` little-endian bytes. -/
  | littleEndianOutside (value size : Nat)
  /-- A payload of zeros only, which nothing closes. -/
  | noTrailingBit
  /-- A one among the bits that fill up a byte. -/
  | alignmentBitSet
  /-- A still picture header in a sequence that is no still picture. -/
  | reducedNotStill
  /-- A frame dimension that no sequence header can hold. -/
  | dimensionOutside (name : String) (value : Nat)
  /-- The content of a sequence header stops inside its frame dimensions. -/
  | sequenceCutShort
  /-- `count` explicit tile sizes did not reach the end of the axis. -/
  | tooManyExplicitTiles (count : Nat)
  /-- More tile columns or rows than a frame may have. -/
  | tooManyTiles (columns rows : Nat)
  /-- The payload of a tile group ends inside the size of a tile. -/
  | tileSizeCutShort (tile : Nat)
  /-- The payload of a tile group ends inside a tile. -/
  | tileCutShort (tile size offset available : Nat)
  /-- The wrong number of tiles for a layout. -/
  | tileCount (given expected : Nat)
  /-- A tile without bytes in front of another tile. -/
  | emptyTile (tile : Nat)
  /-- An error of some device behind the stream. -/
  | external (kind : ErrorKind) (text : String)
  deriving Repr, DecidableEq

namespace StreamError

def kind : StreamError → ErrorKind
  | exhausted _ | shortRead | tooFewBytes .. => .unexpectedEof
  | readTooWide | writeTooWide | patchOutside .. | moveOutside .. | tileCount .. => .invalidInput
  | bufferFull .. => .writeZero
  | external kind _ => kind
  | _ => .invalidData

def message : StreamError → String
  | exhausted bits => s!"bitstream exhausted after {bits} bits"
  | shortRead => "failed to fill whole buffer"
  | tooFewBytes requested remaining => s!"requested {requested} bytes, {remaining} remaining"
  | readTooWide => "cannot read more than 64 bits at once"
  | writeTooWide => "cannot write more than 64 bits at once"
  | bufferFull requested remaining capacity =>
    s!"output buffer full: {requested} bytes requested, {remaining} of {capacity} left"
  | patchOutside size offset written =>
    s!"patch of {size} bytes at {offset} exceeds written length {written}"
  | moveOutside start stop dest written =>
    s!"move of {start}..{stop} to {dest} exceeds written length {written}"
  | bitRangeOutside start stop size => s!"bit range {start}..{stop} outside of a {size} byte buffer"
  | valueOutside name value min max => s!"{name} value {value} outside of {min}..={max}"
  | leb128TooLarge => "LEB128 value exceeds u32::MAX"
  | nonSymmetricEmpty => "ns(n) requires n > 0"
  | nonSymmetricOutside value bound => s!"ns value {value} outside of 0..{bound}"
  | subexpEmpty => "subexp requires range_max > 0"
  | subexpOutside value bound => s!"subexp value {value} outside of 0..{bound}"
  | littleEndianTooWide size => s!"le({size}) exceeds 8 bytes"
  | littleEndianOutside value size => s!"{value} does not fit in le({size})"
  | noTrailingBit => "payload has no trailing one bit"
  | alignmentBitSet => "non-zero byte_alignment bit"
  | reducedNotStill => "reduced_still_picture_header is true but still_picture is false"
  | dimensionOutside name value => s!"{name} {value} outside of 1..=65536"
  | sequenceCutShort => "sequence header payload ends inside the frame dimensions"
  | tooManyExplicitTiles count => s!"more than {count} explicit tiles"
  | tooManyTiles columns rows => s!"{columns}x{rows} tiles exceed the tile grid limits"
  | tileSizeCutShort tile => s!"tile {tile} size field runs past the tile group"
  | tileCutShort tile size offset available =>
    s!"tile {tile} of {size} bytes at {offset} runs past the {available} byte tile group"
  | tileCount given expected => s!"{given} tiles given for a {expected} tile layout"
  | emptyTile tile => s!"tile {tile} is empty"
  | external _ text => text

end StreamError

end Av1Tiling
