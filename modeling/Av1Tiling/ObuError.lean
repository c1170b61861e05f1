import Av1Tiling.StreamError

/-!
# OBU errors

What goes wrong between the bits and the packets: a stream that ends early, an OBU or a header that
means nothing, a frame out of place, a tile layout that cannot be coded. Every cause has a `kind`,
a `message` and the `ErrorClass` that callers act on.
-/

namespace Av1Tiling

/-- What a caller may do about an error. -/
inductive ErrorClass
  /-- The input is malformed; the next input may be fine. -/
  | invalidData
  /-- The output buffer was too small. -/
  | noSpace
  /-- The packets came in an order or combination that makes no unit. -/
  | protocol
  | other
  deriving Repr, DecidableEq

/-- The two directions in which a frame is cut. -/
inductive Axis
  | column
  | row
  deriving Repr, DecidableEq

def Axis.name : Axis → String
  | .column => "column"
  | .row => "row"

/-- Where a writer of OBUs has to sit between two bytes. -/
inductive Boundary
  | reserveSize
  | finalizeSize
  | startObu
  | endObu
  deriving Repr, DecidableEq

def Boundary.action : Boundary → String
  | .reserveSize => "reserving obu_size"
  | .finalizeSize => "finalizing obu_size"
  | .startObu => "starting an OBU"
  | .endObu => "ending an OBU"

/-- Why a tile layout cannot be coded. -/
inductive LayoutError
  /-- The first tile of an axis does not start at zero. -/
  | firstStart (axis : Axis)
  | notIncreasing (axis : Axis) (starts : List Nat)
  /-- A tile starts where the frame has ended. -/
  | pastEnd (axis : Axis) (starts : List Nat) (count : Nat)
  | tooManyTiles (columns rows : Nat)
  | tooWide (width limit : Nat)
  | tooTall (height limit : Nat)
  /-- A tile starts inside a superblock. -/
  | offGrid (axis : Axis) (start superblock : Nat)
  deriving Repr, DecidableEq

/-- The numbers between brackets, as error messages list them. -/
def bracketed (items : List Nat) : String :=
  "[" ++ ", ".intercalate (items.map toString) ++ "]"

def LayoutError.message : LayoutError → String
  | firstStart axis => s!"first tile {axis.name} must start at 0"
  | notIncreasing axis starts =>
    s!"tile {axis.name} starts {bracketed starts} are not strictly increasing"
  | pastEnd axis starts count =>
    s!"tile {axis.name} starts {bracketed starts} reach past {count} superblocks"
  | tooManyTiles columns rows => s!"{columns}x{rows} tiles exceed the tile grid limits"
  | tooWide width limit => s!"tile width of {width} superblocks exceeds {limit}"
  | tooTall height limit => s!"tile height of {height} superblocks exceeds {limit}"
  | offGrid axis start superblock =>
    s!"tile {axis.name} start {start} is not a multiple of the {superblock} pixel superblock"

/-- Why the bits of a frame header make no frame. -/
inductive FrameError
  /-- A frame OBU that only shows an existing frame. -/
  | showExistingInFrame
  /-- The frame to be shown has another identifier than announced. -/
  | displayIdMismatch (id slot : Nat)
  | slotNotShowable (slot : Nat)
  /-- An intra only frame that replaces every reference. -/
  | intraOnlyRefreshesAll
  | primarySlotInvalid (slot : Nat)
  /-- A reference points at a slot that holds another frame than announced. -/
  | frameIdMismatch (reference expected actual : Nat)
  /-- The LAST reference of a short signalling lies in the future. -/
  | lastNotPast
  /-- The GOLDEN reference of a short signalling lies in the future. -/
  | goldenNotPast
  /-- The payload to be rewritten ends inside its tile info. -/
  | cutShort
  deriving Repr, DecidableEq

def FrameError.message : FrameError → String
  | showExistingInFrame => "show_existing_frame in a frame OBU"
  | displayIdMismatch id slot => s!"display_frame_id {id} does not match slot {slot}"
  | slotNotShowable slot => s!"reference slot {slot} cannot be shown"
  | intraOnlyRefreshesAll => "intra only frame refreshing every reference"
  | primarySlotInvalid slot => s!"primary reference frame slot {slot} is not valid"
  | frameIdMismatch reference expected actual =>
    s!"reference {reference} expected frame id {expected}, slot holds {actual}"
  | lastNotPast => "last_frame_idx refers to a frame that is not in the past"
  | goldenNotPast => "gold_frame_idx refers to a frame that is not in the past"
  | cutShort => "frame header payload ends inside tile_info()"

/-- Why OBUs could not be read or written. -/
inductive ObuError
  | stream (cause : StreamError)
  | frame (cause : FrameError)
  | layout (cause : LayoutError)
  /-- An operation on whole bytes in the middle of a byte. -/
  | unaligned (boundary : Boundary)
  /-- The unit ends inside the OBU header at `offset`. -/
  | headerCutShort (offset : Nat)
  /-- The OBU at `offset` does not say how long it is. -/
  | sizeMissing (offset : Nat)
  /-- An OBU of more than 32 bits of bytes. -/
  | sizeTooLarge
  /-- The unit ends inside the payload of an OBU. -/
  | payloadCutShort (expected actual : Nat)
  /-- A frame in front of any sequence header. -/
  | noSequenceHeader
  /-- The tile group at `offset` belongs to no frame. -/
  | noFrameHeader (offset : Nat)
  deriving Repr, DecidableEq

/-- The sort of an OBU error. -/
inductive ObuErrorKind
  | io
  | invalidData
  | invalidObu
  | leb128Overflow
  | unexpectedEof
  | noSpace
  | missingSequenceHeader
  | missingFrameHeader
  | invalidTileLayout
  deriving Repr, DecidableEq

namespace ObuError

/-- Exhausted and malformed streams are invalid data, a full buffer is a lack of space, and all
    else is trouble of the stream itself. -/
def kindOfStream : ErrorKind → ObuErrorKind
  | .invalidData | .unexpectedEof => .invalidData
  | .writeZero => .noSpace
  | .invalidInput | .other => .io

def kind : ObuError → ObuErrorKind
  | stream cause => kindOfStream cause.kind
  | frame _ | unaligned _ => .invalidData
  | layout _ => .invalidTileLayout
  | headerCutShort _ | sizeMissing _ => .invalidObu
  | sizeTooLarge => .leb128Overflow
  | payloadCutShort .. => .unexpectedEof
  | noSequenceHeader => .missingSequenceHeader
  | noFrameHeader _ => .missingFrameHeader

/-- What the message of an error that has a text of its own starts with. -/
def heading : ObuErrorKind → String
  | .io => "I/O error: "
  | .invalidData => "invalid data: "
  | .invalidObu => "invalid OBU: "
  | .noSpace => "no space left in output buffer: "
  | .invalidTileLayout => "invalid tile layout: "
  | .leb128Overflow | .unexpectedEof | .missingSequenceHeader | .missingFrameHeader => ""

def detail : ObuError → String
  | stream cause => cause.message
  | frame cause => cause.message
  | layout cause => cause.message
  | unaligned boundary => s!"{boundary.action} requires byte alignment"
  | headerCutShort offset => s!"truncated OBU header at byte {offset}"
  | sizeMissing offset =>
    s!"obu_has_size_field must be 1 in low-overhead bitstream (OBU at byte {offset})"
  | sizeTooLarge => "LEB128 overflow: value exceeds maximum"
  | payloadCutShort expected actual =>
    s!"unexpected end of data: expected {expected} bytes, got {actual}"
  | noSequenceHeader => "no sequence header has been seen"
  | noFrameHeader offset => s!"tile group at byte {offset} without an active frame header"

def message (error : ObuError) : String :=
  heading error.kind ++ error.detail

def errorClass (error : ObuError) : ErrorClass :=
  match error.kind with
  | .invalidData | .invalidObu | .leb128Overflow | .unexpectedEof => .invalidData
  | .noSpace => .noSpace
  | .io | .missingSequenceHeader | .missingFrameHeader | .invalidTileLayout => .other

end ObuError

/-- An error of the stream is one of the errors of its OBUs. -/
instance : MonadLift (Except (Failure StreamError)) (Except (Failure ObuError)) where
  monadLift
    | .ok value => .ok value
    | .error cause => .error (cause.map .stream)

/-- A step of a stream is a step of its OBUs. -/
instance {σ : Type} :
    MonadLift (EStateM (Failure StreamError) σ) (EStateM (Failure ObuError) σ) where
  monadLift step := fun state =>
    match step state with
    | .ok value state => .ok value state
    | .error cause state => .error (cause.map .stream) state

end Av1Tiling
