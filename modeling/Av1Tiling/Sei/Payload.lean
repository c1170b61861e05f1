import Av1Tiling.Bytes
import Av1Tiling.Sei.Error

/-!
# HDR payloads

The color volume of the display that a picture was mastered on, and how bright the picture is. Both
are numbers of two or four bytes, highest byte first, and have a fixed size.
-/

namespace Av1Tiling.Sei

/-- A color, in steps of 0.00002 of the CIE 1931 plane. -/
structure Chromaticity where
  x : Nat
  y : Nat
  deriving Repr, DecidableEq

/-- What the mastering display can show. -/
structure MasteringDisplay where
  /-- The primaries, in the order in which they are coded. -/
  primaries : Chromaticity × Chromaticity × Chromaticity
  whitePoint : Chromaticity
  maxLuminance : Nat
  minLuminance : Nat
  deriving Repr, DecidableEq

/-- How bright the content is, in candelas per square metre. -/
structure ContentLightLevel where
  maxContent : Nat
  maxFrameAverage : Nat
  deriving Repr, DecidableEq

/-- Fails for a payload that has not the size of its type. -/
def checkSize (type expected : Nat) (payload : Bytes) : Except Error Unit :=
  if payload.length = expected then .ok () else .error (.payloadSize type expected payload.length)

/-- The number of `size` bytes at `offset`. -/
def numberAt (payload : Bytes) (offset size : Nat) : Nat :=
  Bytes.toNatBE (payload.slice offset size)

namespace Chromaticity

/-- The color at `offset` of a payload. -/
def read (payload : Bytes) (offset : Nat) : Chromaticity :=
  ⟨numberAt payload offset 2, numberAt payload (offset + 2) 2⟩

def encode (color : Chromaticity) : Bytes :=
  Bytes.ofNatBE 2 color.x ++ Bytes.ofNatBE 2 color.y

end Chromaticity

namespace MasteringDisplay

/-- The type of the message. -/
def type : Nat := 137

def byteSize : Nat := 24

def parse (payload : Bytes) : Except Error MasteringDisplay := do
  checkSize type byteSize payload
  return {
    primaries := (.read payload 0, .read payload 4, .read payload 8)
    whitePoint := .read payload 12
    maxLuminance := numberAt payload 16 4
    minLuminance := numberAt payload 20 4 }

def encode (display : MasteringDisplay) : Bytes :=
  let (first, second, third) := display.primaries
  first.encode ++ second.encode ++ third.encode ++ display.whitePoint.encode
    ++ Bytes.ofNatBE 4 display.maxLuminance ++ Bytes.ofNatBE 4 display.minLuminance

end MasteringDisplay

namespace ContentLightLevel

/-- The type of the message. -/
def type : Nat := 144

def byteSize : Nat := 4

def parse (payload : Bytes) : Except Error ContentLightLevel := do
  checkSize type byteSize payload
  return { maxContent := numberAt payload 0 2, maxFrameAverage := numberAt payload 2 2 }

def encode (level : ContentLightLevel) : Bytes :=
  Bytes.ofNatBE 2 level.maxContent ++ Bytes.ofNatBE 2 level.maxFrameAverage

end ContentLightLevel

end Av1Tiling.Sei
