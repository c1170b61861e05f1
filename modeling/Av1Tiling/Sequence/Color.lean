import Av1Tiling.Bits.Reader

/-!
# Color of a sequence

Bit depth, planes and their sampling, and what the sample values stand for.
-/

namespace Av1Tiling

/-- How samples are stored and what they mean. -/
structure ColorConfig where
  bitDepth : Nat
  monochrome : Bool
  primaries : Nat
  transfer : Nat
  matrix : Nat
  fullRange : Bool
  subsamplingX : Bool
  subsamplingY : Bool
  chromaSamplePosition : Nat
  separateUvDeltaQ : Bool
  deriving Repr, DecidableEq

namespace ColorConfig

/-- The code points of primaries, transfer and matrix that say nothing. -/
def unspecified : Nat × Nat × Nat := (2, 2, 2)

/-- The code points of sRGB, whose chroma is never subsampled. -/
def srgb : Nat × Nat × Nat := (1, 13, 0)

def unknownSamplePosition : Nat := 0

/-- Number of planes of a frame. -/
def planes (color : ColorConfig) : Nat :=
  if color.monochrome then 1 else 3

def readBitDepth (profile : Nat) : Read Nat := do
  if ← Read.bit then
    let twelve ← Read.bitIf (profile == 2)
    return if twelve then 12 else 10
  else
    return 8

/-- Reads primaries, transfer and matrix. -/
def readDescription : Read (Nat × Nat × Nat) := do
  if ← Read.bit then
    let primaries ← Read.bits 8
    let transfer ← Read.bits 8
    let matrix ← Read.bits 8
    return (primaries, transfer, matrix)
  else
    return unspecified

/-- Reads in which directions chroma is subsampled. Profiles 0 and 1 have no choice, and neither
    has profile 2 below twelve bits. -/
def readSubsampling (profile bitDepth : Nat) : Read (Bool × Bool) := do
  if profile = 0 then
    return (true, true)
  else if profile = 1 then
    return (false, false)
  else if bitDepth = 12 then
    let x ← Read.bit
    let y ← Read.bitIf x
    return (x, y)
  else
    return (true, false)

/-- Reads where chroma samples lie, which is known unless they are subsampled both ways. -/
def readSamplePosition (subsampled : Bool) : Read Nat :=
  if subsampled then Read.bits 2 else return unknownSamplePosition

/-- Reads the color of a sequence of the given profile. -/
def read (profile : Nat) : Read ColorConfig := do
  let bitDepth ← readBitDepth profile
  let monochrome ← Read.bitIf (profile != 1)
  let description@(primaries, transfer, matrix) ← readDescription
  if monochrome then
    let fullRange ← Read.bit
    return {
      bitDepth, monochrome, primaries, transfer, matrix, fullRange
      subsamplingX := true, subsamplingY := true
      chromaSamplePosition := unknownSamplePosition, separateUvDeltaQ := false }
  else if description = srgb then
    let separateUvDeltaQ ← Read.bit
    return {
      bitDepth, monochrome, primaries, transfer, matrix, fullRange := true
      subsamplingX := false, subsamplingY := false
      chromaSamplePosition := unknownSamplePosition, separateUvDeltaQ }
  else
    let fullRange ← Read.bit
    let (subsamplingX, subsamplingY) ← readSubsampling profile bitDepth
    let chromaSamplePosition ← readSamplePosition (subsamplingX && subsamplingY)
    let separateUvDeltaQ ← Read.bit
    return {
      bitDepth, monochrome, primaries, transfer, matrix, fullRange
      subsamplingX, subsamplingY, chromaSamplePosition, separateUvDeltaQ }

end ColorConfig

end Av1Tiling
