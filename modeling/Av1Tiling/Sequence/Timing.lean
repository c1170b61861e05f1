import Av1Tiling.Bits.Reader
import Av1Tiling.Code.Uvlc

/-!
# Timing of a sequence

The display clock, the decoder model and what it says about each operating point.
-/

namespace Av1Tiling

/-- The display clock. -/
structure TimingInfo where
  unitsInDisplayTick : Nat
  timeScale : Nat
  /-- Ticks per picture, where all pictures last as long. -/
  ticksPerPicture : Option Nat
  deriving Repr, DecidableEq

/-- The clock of the decoder model and the widths of its times. -/
structure DecoderModel where
  bufferDelayLength : Nat
  unitsInDecodingTick : Nat
  bufferRemovalTimeLength : Nat
  framePresentationTimeLength : Nat
  deriving Repr, DecidableEq

/-- What the decoder model says about one operating point. -/
structure OperatingParameters where
  decoderBufferDelay : Nat
  encoderBufferDelay : Nat
  lowDelayMode : Bool
  deriving Repr, DecidableEq

/-- A choice of layers that can be decoded on its own. -/
structure OperatingPoint where
  /-- A bit per temporal layer, and a bit per spatial layer above those eight. Zero is every
      layer. -/
  layers : Nat
  level : Nat
  tier : Bool
  parameters : Option OperatingParameters
  initialDisplayDelay : Option Nat
  deriving Repr, DecidableEq

/-- Reads how long a picture lasts, if all last as long. -/
def TimingInfo.readTicks (equalInterval : Bool) : Read (Option Nat) :=
  if equalInterval then (fun n => some (n + 1)) <$> Uvlc.read 0 (Uvlc.maxValue - 1) else return none

def TimingInfo.read : Read TimingInfo := do
  let unitsInDisplayTick ← Read.word
  let timeScale ← Read.word
  let equalInterval ← Read.bit
  let ticksPerPicture ← readTicks equalInterval
  return { unitsInDisplayTick, timeScale, ticksPerPicture }

def DecoderModel.read : Read DecoderModel := do
  let bufferDelayLength := (← Read.bits 5) + 1
  let unitsInDecodingTick ← Read.word
  let bufferRemovalTimeLength := (← Read.bits 5) + 1
  let framePresentationTimeLength := (← Read.bits 5) + 1
  return {
    bufferDelayLength, unitsInDecodingTick, bufferRemovalTimeLength, framePresentationTimeLength }

/-- Reads delays of `length` bits. -/
def OperatingParameters.read (length : Nat) : Read OperatingParameters := do
  let decoderBufferDelay ← Read.bits length
  let encoderBufferDelay ← Read.bits length
  let lowDelayMode ← Read.bit
  return { decoderBufferDelay, encoderBufferDelay, lowDelayMode }

namespace OperatingPoint

/-- The point takes in the given layer. -/
def containsLayer (point : OperatingPoint) (temporalId spatialId : Nat) : Bool :=
  point.layers == 0 || point.layers.testBit temporalId && point.layers.testBit (spatialId + 8)

/-- Number of bits of the choice of layers. -/
def layerBits : Nat := 16

/-- The point takes in the given layer, if there are bits for it. -/
def takesIn (point : OperatingPoint) (temporalId spatialId : Nat) : Except Fault Bool := do
  if point.layers = 0 then
    return true
  else
    let _ ← Checked.shift layerBits temporalId
    let _ ← Checked.shift layerBits (spatialId + 8)
    return point.containsLayer temporalId spatialId

/-- The levels above this one come in two tiers. -/
def lastLevelWithoutTier : Nat := 7

/-- Reads what the decoder model says about a point, if there is a model and it says anything. -/
def readParameters : (decoderModel : Option DecoderModel) → Read (Option OperatingParameters)
  | none => return none
  | some model => do
    if ← Read.bit then some <$> OperatingParameters.read model.bufferDelayLength else return none

/-- Reads a delay, if there is one. -/
def readDelay (present : Bool) : Read (Option Nat) :=
  if present then (fun n => some (n + 1)) <$> Read.bits 4 else return none

/-- Reads an operating point of a sequence with the given decoder model. -/
def read (decoderModel : Option DecoderModel) (delayPresent : Bool) : Read OperatingPoint := do
  let layers ← Read.bits 12
  let level ← Read.bits 5
  let tier ← Read.bitIf (lastLevelWithoutTier < level)
  let parameters ← readParameters decoderModel
  let hasDelay ← Read.bitIf delayPresent
  let initialDisplayDelay ← readDelay hasDelay
  return { layers, level, tier, parameters, initialDisplayDelay }

/-- Reads `count` operating points. -/
def readMany (decoderModel : Option DecoderModel) (delayPresent : Bool) :
    (count : Nat) → Read (List OperatingPoint)
  | 0 => return []
  | count + 1 => do
    let point ← read decoderModel delayPresent
    return point :: (← readMany decoderModel delayPresent count)

end OperatingPoint

end Av1Tiling
