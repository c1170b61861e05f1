import Av1Tiling.Frame.Reading
import Av1Tiling.Obu.Stream
import Av1Tiling.Tile.Group

/-!
# Decoder state

Frame headers mean nothing on their own: they depend on the sequence header and on the slots that
earlier frames left behind. `interpret` takes the state from one OBU to the next and `parseUnit`
through a whole temporal unit; a step that fails leaves the state as far as it came.
-/

namespace Av1Tiling

/-- What an OBU turned out to hold. -/
inductive ObuContent
  | temporalDelimiter
  | sequenceHeader (sequence : SequenceHeader)
  /-- The header of a frame whose tiles follow, or of a shown existing frame. -/
  | frameHeader (frame : FrameHeader)
  /-- The header of the pending frame once more. -/
  | frameHeaderCopy
  /-- Tiles of the pending frame, placed in the payload of the OBU. -/
  | tileGroup (group : TileGroup)
  /-- A frame with its tiles, of which only the header is looked at. -/
  | frame (frame : FrameHeader)
  | other
  deriving Repr, DecidableEq

/-- An OBU and what it holds. -/
structure ParsedObu where
  obu : Obu
  content : ObuContent
  deriving Repr, DecidableEq

/-- What the OBUs so far have left behind. -/
structure DecoderState where
  sequence : Option SequenceHeader
  slots : RefSlots
  /-- The frame whose tiles are still to come. -/
  pending : Option FrameHeader
  deriving Repr, DecidableEq

/-- The state in front of the first OBU. -/
def DecoderState.empty : DecoderState where
  sequence := none
  slots := .empty
  pending := none

/-- A step from one decoder state to the next. -/
abbrev Decode := EStateM (Failure ObuError) DecoderState

namespace Decode

/-- Waits for the tiles of a frame, or for none. -/
def setPending (pending : Option FrameHeader) : Decode Unit :=
  modify fun state => { state with pending }

/-- Completes a frame: its slots hold it, and no more tiles of it come. -/
def complete (frame : FrameHeader) : Decode Unit :=
  modify fun state => { state with slots := frame.updateSlots state.slots, pending := none }

/-- Reads the sequence header in an OBU, and goes by it from now on. -/
def sequenceHeader (obu : Obu) : Decode SequenceHeader := fun state =>
  match SequenceHeader.parse obu.header obu.payload with
  | .ok sequence _ => .ok sequence { state with sequence := some sequence }
  | .error cause _ => .error (cause.map .stream) state

/-- Reads the frame header in an OBU. -/
def frameHeader (obu : Obu) : Decode FrameHeader := fun state =>
  match state.sequence with
  | none => .error (.raised .noSequenceHeader) state
  | some sequence =>
    match FrameHeader.parse sequence obu.header obu.payload state.slots with
    | .ok frame slots => .ok frame { state with slots }
    | .error cause slots => .error cause { state with slots }

/-- Reads a frame header that is no copy. A shown existing frame is complete at once. -/
def startFrame (obu : Obu) : Decode FrameHeader := do
  let frame ← frameHeader obu
  if frame.showExisting then
    modify fun state => { state with slots := frame.updateSlots state.slots }
  else
    setPending (some frame)
  return frame

/-- Reads tiles of the pending frame, which is complete with its last tile. -/
def tileGroup (obu : Obu) : Decode TileGroup := do
  let some frame := (← get).pending | throw (.raised (.noFrameHeader obu.offset))
  let some layout := frame.layout | throw (.raised (.noFrameHeader obu.offset))
  let group ← TileGroup.parse obu.payload layout
  if group.endsFrame layout then complete frame
  return group

/-- Finds out what an OBU holds, and what is different behind it. -/
def interpret (obu : Obu) : Decode ObuContent := do
  match obu.header.type with
  | .temporalDelimiter =>
    setPending none
    return .temporalDelimiter
  | .sequenceHeader => return .sequenceHeader (← sequenceHeader obu)
  | .frameHeader | .redundantFrameHeader =>
    if (← get).pending.isSome then
      return .frameHeaderCopy
    else
      return .frameHeader (← startFrame obu)
  | .tileGroup => return .tileGroup (← tileGroup obu)
  | .frame =>
    let frame ← frameHeader obu
    complete frame
    return .frame frame
  | .metadata | .tileList | .padding | .reserved _ => return .other

/-- Interprets everything in a temporal unit, up to the first error. -/
def parseUnit (unit : Bytes) : Decode (List ParsedObu) :=
  (Obu.readAll unit).1.mapM fun (item : Except (Failure ObuError) Obu) => do
    let obu ← item
    return { obu, content := ← interpret obu }

end Decode

end Av1Tiling
