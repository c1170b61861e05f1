import Av1Tiling.Bytes

/-!
# Packets

A unit of compressed data with its times and the stream it belongs to. A packet may carry one tile
of a frame; all other data of the frame is then the same in the packets of its other tiles.
-/

namespace Av1Tiling

/-- A unit of compressed data. -/
structure Packet where
  data : Bytes
  /-- When the data is presented. -/
  pts : Option Int
  /-- When the data is decoded. -/
  dts : Option Int
  /-- Properties as bits; bits without a meaning are kept. -/
  flags : Nat
  streamIndex : Nat
  /-- The tile that the packet carries, if it carries only one. -/
  tileIndex : Option Nat
  deriving Repr, DecidableEq

namespace Packet

/-- The bit of a packet at which decoding can start. -/
def keyFlag : Nat := 0

/-- Decoding can start at the packet. -/
def isKey (packet : Packet) : Bool :=
  packet.flags.testBit keyFlag

/-- A packet of the same times and stream that carries all tiles of other data. -/
def withData (packet : Packet) (data : Bytes) : Packet :=
  { packet with data, tileIndex := none }

end Packet

end Av1Tiling
