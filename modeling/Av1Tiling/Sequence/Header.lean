import Av1Tiling.Bits.Span
import Av1Tiling.Code.TrailingBit
import Av1Tiling.Obu.Header
import Av1Tiling.Sequence.Color
import Av1Tiling.Sequence.Timing

/-!
# Sequence headers

What holds for every frame of a sequence. A header knows where its frame dimensions are coded, so
that it can be written for another frame size (`withDimensions`, `writeWithDimensions`) while all
its other bits stay as they are.
-/

namespace Av1Tiling

/-- The largest frame of a sequence, and how its dimensions are coded. -/
structure FrameDimensions where
  /-- Number of bits of a frame width. -/
  widthBits : Nat
  /-- Number of bits of a frame height. -/
  heightBits : Nat
  maxWidth : Nat
  maxHeight : Nat
  /-- Where all four are coded. -/
  span : BitSpan
  deriving Repr, DecidableEq

/-- The widths of the numbers that identify frames. -/
structure FrameIds where
  /-- Number of bits of the distance to a reference. -/
  deltaLength : Nat
  /-- Number of bits an identifier has more than a distance. -/
  additionalLength : Nat
  deriving Repr, DecidableEq

/-- Number of bits of an identifier. -/
def FrameIds.idLength (ids : FrameIds) : Nat :=
  ids.additionalLength + ids.deltaLength

/-- The tools that only sequences of several pictures have. -/
structure InterTools where
  interintraCompound : Bool
  maskedCompound : Bool
  warpedMotion : Bool
  dualFilter : Bool
  orderHint : Bool
  jntComp : Bool
  refFrameMvs : Bool
  /-- Whether frames use screen content tools: 0 or 1, or `InterTools.perFrame`. -/
  screenContentTools : Nat
  /-- Whether motion vectors are whole samples: 0 or 1, or `InterTools.perFrame`. -/
  integerMv : Nat
  /-- Number of bits of an order hint. -/
  orderHintBits : Nat
  deriving Repr, DecidableEq

/-- A sequence header. -/
structure SequenceHeader where
  /-- The header of the OBU that holds it. -/
  header : ObuHeader
  profile : Nat
  stillPicture : Bool
  reducedStillPicture : Bool
  timing : Option TimingInfo
  decoderModel : Option DecoderModel
  operatingPoints : List OperatingPoint
  dimensions : FrameDimensions
  frameIds : Option FrameIds
  /-- Superblocks have 128 samples on a side instead of 64. -/
  largeSuperblocks : Bool
  filterIntra : Bool
  intraEdgeFilter : Bool
  inter : InterTools
  superres : Bool
  cdef : Bool
  restoration : Bool
  color : ColorConfig
  filmGrain : Bool
  deriving Repr, DecidableEq

namespace FrameDimensions

/-- The largest width or height. -/
def maxDimension : Nat := 65536

def read : Read FrameDimensions := do
  let start ← Read.pos
  let widthBits := (← Read.bits 4) + 1
  let heightBits := (← Read.bits 4) + 1
  let maxWidth := (← Read.bits widthBits) + 1
  let maxHeight := (← Read.bits heightBits) + 1
  return { widthBits, heightBits, maxWidth, maxHeight, span := ⟨start, ← Read.pos⟩ }

/-- Number of bits for dimensions up to `value`, at least the `current` ones. -/
def bitsFor (name : String) (current value : Nat) : Except StreamError Nat :=
  if value = 0 ∨ maxDimension < value then
    .error (.dimensionOutside name value)
  else
    .ok (max current (floorLog2 (value - 1) + 1))

/-- The dimensions of `width` by `height` frames, coded from the same bit on. The numbers of bits
    only ever grow, so dimensions that already fit keep their places. -/
def resize (dimensions : FrameDimensions) (width height : Nat) :
    Except StreamError FrameDimensions := do
  let widthBits ← bitsFor "frame width" dimensions.widthBits width
  let heightBits ← bitsFor "frame height" dimensions.heightBits height
  let start := dimensions.span.start
  return {
    widthBits, heightBits, maxWidth := width, maxHeight := height
    span := ⟨start, start + 8 + widthBits + heightBits⟩ }

def write (dimensions : FrameDimensions) : Write Unit := do
  (Field.bits "frame_width_bits_minus_1" 4).write (dimensions.widthBits - 1)
  (Field.bits "frame_height_bits_minus_1" 4).write (dimensions.heightBits - 1)
  (Field.bits "max_frame_width_minus_1" dimensions.widthBits).write (dimensions.maxWidth - 1)
  (Field.bits "max_frame_height_minus_1" dimensions.heightBits).write (dimensions.maxHeight - 1)

end FrameDimensions

def FrameIds.read : Read FrameIds := do
  let deltaLength := (← Read.bits 4) + 2
  let additionalLength := (← Read.bits 3) + 1
  return { deltaLength, additionalLength }

namespace InterTools

/-- Each frame says for itself. -/
def perFrame : Nat := 2

/-- The tools of a still picture. -/
def still : InterTools where
  interintraCompound := false
  maskedCompound := false
  warpedMotion := false
  dualFilter := false
  orderHint := false
  jntComp := false
  refFrameMvs := false
  screenContentTools := perFrame
  integerMv := perFrame
  orderHintBits := 0

/-- Reads one choice between never, always and `perFrame`. -/
def readChoice : Read Nat := do
  if ← Read.bit then return perFrame else Read.bits 1

/-- Reads the choice of whole motion vectors, which is for frames without screen content tools
    theirs. -/
def readIntegerMv (screenContentTools : Nat) : Read Nat :=
  if 0 < screenContentTools then readChoice else return perFrame

/-- Reads the number of bits of an order hint, if frames have one. -/
def readOrderHintBits (present : Bool) : Read Nat :=
  if present then (· + 1) <$> Read.bits 3 else return 0

def read : Read InterTools := do
  let interintraCompound ← Read.bit
  let maskedCompound ← Read.bit
  let warpedMotion ← Read.bit
  let dualFilter ← Read.bit
  let orderHint ← Read.bit
  let jntComp ← Read.bitIf orderHint
  let refFrameMvs ← Read.bitIf orderHint
  let screenContentTools ← readChoice
  let integerMv ← readIntegerMv screenContentTools
  let orderHintBits ← readOrderHintBits orderHint
  return {
    interintraCompound, maskedCompound, warpedMotion, dualFilter, orderHint, jntComp, refFrameMvs
    screenContentTools, integerMv, orderHintBits }

end InterTools

namespace SequenceHeader

/-- All pictures last as long. -/
def equalPictureInterval (sequence : SequenceHeader) : Bool :=
  (sequence.timing.bind TimingInfo.ticksPerPicture).isSome

/-- Reads the clocks of a sequence. Only one with a display clock has a decoder model. -/
def readClocks : Read (Option TimingInfo × Option DecoderModel) := do
  if ← Read.bit then
    let timing ← TimingInfo.read
    if ← Read.bit then
      let model ← DecoderModel.read
      return (some timing, some model)
    else
      return (some timing, none)
  else
    return (none, none)

/-- Reads the clocks and the operating points of a sequence. -/
def readOperation (reduced : Bool) :
    Read (Option TimingInfo × Option DecoderModel × List OperatingPoint) := do
  if reduced then
    let level ← Read.bits 5
    return (none, none,
      [{ layers := 0, level, tier := false, parameters := none, initialDisplayDelay := none }])
  else
    let (timing, decoderModel) ← readClocks
    let delayPresent ← Read.bit
    let count := (← Read.bits 5) + 1
    let points ← OperatingPoint.readMany decoderModel delayPresent count
    return (timing, decoderModel, points)

/-- Reads the identifiers of a sequence that has any. -/
def readFrameIds (reduced : Bool) : Read (Option FrameIds) := do
  let present ← Read.bitIf !reduced
  if present then some <$> FrameIds.read else return none

/-- Only a still picture has a reduced header. -/
def checkStill (stillPicture reduced : Bool) : Except StreamError Unit :=
  if reduced && !stillPicture then .error .reducedNotStill else .ok ()

/-- Reads the tools of a sequence; those of a reduced header are known. -/
def readInter (reduced : Bool) : Read InterTools :=
  if reduced then return .still else InterTools.read

/-- Reads the content of a sequence header. -/
def read (header : ObuHeader) : Read SequenceHeader := do
  let profile ← Read.bits 3
  let stillPicture ← Read.bit
  let reducedStillPicture ← Read.bit
  checkStill stillPicture reducedStillPicture
  let (timing, decoderModel, operatingPoints) ← readOperation reducedStillPicture
  let dimensions ← FrameDimensions.read
  let frameIds ← readFrameIds reducedStillPicture
  let largeSuperblocks ← Read.bit
  let filterIntra ← Read.bit
  let intraEdgeFilter ← Read.bit
  let inter ← readInter reducedStillPicture
  let superres ← Read.bit
  let cdef ← Read.bit
  let restoration ← Read.bit
  let color ← ColorConfig.read profile
  let filmGrain ← Read.bit
  return {
    header, profile, stillPicture, reducedStillPicture, timing, decoderModel, operatingPoints
    dimensions, frameIds, largeSuperblocks, filterIntra, intraEdgeFilter, inter, superres, cdef
    restoration, color, filmGrain }

/-- The header in `payload`, and the reader behind it. -/
def parse (header : ObuHeader) (payload : Bytes) :
    EStateM.Result (Failure StreamError) BitReader SequenceHeader :=
  Read.runOn (read header) payload

/-- The header of the same sequence with frames of `width` by `height`. -/
def withDimensions (sequence : SequenceHeader) (width height : Nat) :
    Except StreamError SequenceHeader := do
  let dimensions ← sequence.dimensions.resize width height
  return { sequence with dimensions }

/-- Writes the content of the header for frames of `width` by `height` and yields what was written.
    The bits outside of the frame dimensions are those of `payload`, which the header was read
    from; the bits that close it are left to the caller. -/
def writeWithDimensions (sequence : SequenceHeader) (payload : Bytes) (width height : Nat) :
    Write SequenceHeader := do
  let target ← sequence.withDimensions width height
  let span := sequence.dimensions.span
  let stop ← TrailingBit.position payload
  if stop < span.stop then throw (.raised .sequenceCutShort)
  Write.copy payload 0 span.start
  target.dimensions.write
  Write.copy payload span.stop stop
  return target

end SequenceHeader

end Av1Tiling
