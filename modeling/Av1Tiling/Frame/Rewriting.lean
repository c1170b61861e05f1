import Av1Tiling.Code.TrailingBit
import Av1Tiling.Frame.Reading
import Av1Tiling.Obu.Emit

/-!
# Rewriting frame headers

A header can be written again for other tiles or another frame size. What is replaced sits in spans
that the header knows; everything else is copied bit for bit, also what lies behind the tile info
and was never looked at.
-/

namespace Av1Tiling.FrameHeader

/-- Copies `payload` from bit `start` on up to an element at `span`, writes `element` in its place,
    and yields where to go on. Without a span nothing happens. -/
def replace (payload : Bytes) (start : Nat) (span : Option BitSpan) (element : Write Unit) :
    Write Nat := do
  match span with
  | none => return start
  | some span =>
    Write.copy payload start span.start
    element
    return span.stop

/-- Writes the largest frame size of a sequence. -/
def writeSize (sequence : SequenceHeader) : Write Unit := do
  let size := sequence.dimensions
  (Field.bits "frame_width_minus_1" size.widthBits).write (size.maxWidth - 1)
  (Field.bits "frame_height_minus_1" size.heightBits).write (size.maxHeight - 1)

/-- Writes the frame size of the sequence `target` in place of a coded one, and that the frame is
    shown at that size. -/
def writeResized (frame : FrameHeader) (payload : Bytes) (target : SequenceHeader) :
    Write Nat := do
  let next ← replace payload 0 frame.sizeSpan (writeSize target)
  replace payload next frame.renderSpan (Write.bit false)

/-- Writes the content of the header for a frame cut into `layout`, and of the size that the
    sequence `target` says if there is one. `payload` is what the header was read from; the bits
    that close it are left to the caller. -/
def writeRewritten (frame : FrameHeader) (payload : Bytes) (target : Option SequenceHeader)
    (layout : TileLayout) : Emit Unit := do
  let stop ← TrailingBit.position payload
  match frame.layoutSpan with
  | none => Write.copy payload 0 stop
  | some span =>
    if stop < span.stop then throw (.raised (.frame .cutShort))
    let next ← match target with
      | some target => frame.writeResized payload target
      | none => pure 0
    Write.copy payload next span.start
    if frame.layout = some layout then
      Write.copy payload span.start span.stop
    else
      layout.write
    Write.copy payload span.stop stop

end Av1Tiling.FrameHeader
