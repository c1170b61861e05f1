import Av1Tiling.Checked
import Av1Tiling.Packet.Error

/-!
# Tile geometry

Where one tile sits in its frame, among how many others.
-/

namespace Av1Tiling

/-- The place of one tile in its frame. -/
structure TileGeometry where
  /-- Width of the frame. -/
  width : Nat
  /-- Height of the frame. -/
  height : Nat
  /-- Number of tile columns. -/
  columns : Nat
  /-- Number of tile rows. -/
  rows : Nat
  x : Nat
  y : Nat
  tileWidth : Nat
  tileHeight : Nat
  deriving Repr, DecidableEq

namespace TileGeometry

/-- The largest dimension of a frame and the largest place in it. -/
def maxPixels : Nat := 8192

/-- The most tile columns and the most tile rows. -/
def maxGrid : Nat := 128

/-- One tile that is the whole frame. -/
def fullFrame (width height : Nat) : TileGeometry where
  width := width
  height := height
  columns := 1
  rows := 1
  x := 0
  y := 0
  tileWidth := width
  tileHeight := height

/-- Number of tiles of the frame. -/
def tileCount (geometry : TileGeometry) : Nat :=
  geometry.columns * geometry.rows

/-- Fails for a value outside of `min..=max`. -/
def checkRange (name : String) (value min max : Nat) : Except ConfigError Unit :=
  if min ≤ value ∧ value ≤ max then .ok () else .error (.outOfRange name value min max)

/-- Fails for a geometry out of range, and for a tile that reaches out of its frame. -/
def validate (geometry : TileGeometry) : Except ConfigError Unit := do
  checkRange "width" geometry.width 1 maxPixels
  checkRange "height" geometry.height 1 maxPixels
  checkRange "column" geometry.columns 1 maxGrid
  checkRange "row" geometry.rows 1 maxGrid
  checkRange "x" geometry.x 0 maxPixels
  checkRange "y" geometry.y 0 maxPixels
  checkRange "x_w" geometry.tileWidth 1 maxPixels
  checkRange "y_h" geometry.tileHeight 1 maxPixels
  if geometry.width < geometry.x + geometry.tileWidth
      ∨ geometry.height < geometry.y + geometry.tileHeight then
    throw (.outsideFrame geometry.tileWidth geometry.tileHeight geometry.x geometry.y
      geometry.width geometry.height)

end TileGeometry

end Av1Tiling
