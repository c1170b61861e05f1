import Av1Tiling.Bits.Span
import Av1Tiling.Frame.References
import Av1Tiling.Tile.Layout

/-!
# Frame headers

The header of a frame up to its tile info. What it means depends on the sequence header and on the
reference slots, and reading one may already invalidate slots; `FrameHeader.updateSlots` stores the
frame once it is complete.
-/

namespace Av1Tiling

/-- What kind of frame begins. -/
structure FrameKind where
  type : FrameType
  showFrame : Bool
  /-- The frame may be shown later. -/
  showable : Bool
  errorResilient : Bool
  deriving Repr, DecidableEq

/-- The tools of all blocks of a frame. -/
structure FrameTools where
  disableCdfUpdate : Bool
  screenContentTools : Bool
  forceIntegerMv : Bool
  deriving Repr, DecidableEq

/-- The size of a frame, and where the header says so. -/
structure CodedSize where
  size : FrameSize
  /-- Where width and height are coded, if they are. -/
  sizeSpan : Option BitSpan
  /-- Where the render size is coded, if it is. -/
  renderSpan : Option BitSpan
  deriving Repr, DecidableEq

/-- What a frame takes from other frames. -/
structure Prediction where
  shortSignaling : Bool
  references : RefIndices
  highPrecisionMv : Bool
  interpolationFilter : Nat
  motionModeSwitchable : Bool
  useRefFrameMvs : Bool
  deriving Repr, DecidableEq

/-- The prediction of a frame that uses no other frame. -/
def Prediction.none : Prediction where
  shortSignaling := false
  references := Vector.replicate 7 0
  highPrecisionMv := false
  interpolationFilter := 0
  motionModeSwitchable := false
  useRefFrameMvs := false

/-- The header of a frame. -/
structure FrameHeader extends FrameKind, FrameTools, CodedSize, Prediction where
  /-- The header of the OBU that holds it. -/
  header : ObuHeader
  /-- The header shows the frame in a slot and brings no frame of its own. -/
  showExisting : Bool
  /-- The slot that is shown. -/
  shownSlot : Fin 8
  frameId : Nat
  /-- The frame has another size than its sequence says. -/
  sizeOverride : Bool
  orderHint : Nat
  /-- The reference whose state carries over, or `FrameHeader.noPrimaryRef`. -/
  primaryRef : Nat
  /-- A bit for each slot that the frame goes to. -/
  refreshFlags : Nat
  allowIntrabc : Bool
  disableFrameEndUpdateCdf : Bool
  /-- How the frame is cut into tiles, if the header brings a frame. -/
  layout : Option TileLayout
  /-- Where the layout is coded. -/
  layoutSpan : Option BitSpan
  deriving Repr, DecidableEq

namespace FrameHeader

/-- In place of a primary reference: no state carries over. -/
def noPrimaryRef : Nat := 7

/-- Every slot. -/
def allSlots : Nat := 255

/-- The slots behind the frame, once it is complete. A shown existing frame changes them only if it
    is a key frame, which then goes to every slot. -/
def updateSlots (frame : FrameHeader) (slots : RefSlots) : RefSlots :=
  if frame.showExisting then
    if frame.type = .key then slots.refresh frame.refreshFlags slots[frame.shownSlot] else slots
  else
    slots.refresh frame.refreshFlags {
      valid := true, frameId := frame.frameId, type := frame.type, orderHint := frame.orderHint
      showable := frame.showable, size := frame.size }

end FrameHeader

end Av1Tiling
