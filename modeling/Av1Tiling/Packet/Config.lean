import Av1Tiling.Packet.Geometry

/-!
# Configurations of splitter and repacker
-/

namespace Av1Tiling

/-- How a splitter places units of a single tile. -/
structure SplitConfig where
  /-- The tile that such a unit is. -/
  tileIndex : Option Nat
  /-- Where that tile sits. Without a geometry the unit is the whole frame. -/
  geometry : Option TileGeometry
  deriving Repr, DecidableEq

/-- What a repacker puts together. -/
structure RepackConfig where
  /-- Number of tile packets of a unit. -/
  tileCount : Nat
  /-- The most bytes of a unit that is put together. -/
  maxOutputSize : Nat
  deriving Repr, DecidableEq

namespace SplitConfig

def default : SplitConfig where
  tileIndex := none
  geometry := none

/-- Fails for a bad geometry, and for a tile that it lacks. -/
def validate (config : SplitConfig) : Except ConfigError Unit := do
  if let some geometry := config.geometry then geometry.validate
  let tiles := (config.geometry.map TileGeometry.tileCount).getD 1
  if let some index := config.tileIndex then
    if tiles ≤ index then throw (.indexOutsideGrid index tiles)

end SplitConfig

namespace RepackConfig

/-- The most tiles of a unit. -/
def maxTileCount : Nat := 128

/-- A unit of one tile and at most four megabytes. -/
def default : RepackConfig where
  tileCount := 1
  maxOutputSize := 4 * 1024 * 1024

/-- Fails for a number of tiles out of range, and where there is no room for output. -/
def validate (config : RepackConfig) : Except ConfigError Unit := do
  TileGeometry.checkRange "tile_num" config.tileCount 1 maxTileCount
  if config.maxOutputSize = 0 then throw .noOutput

end RepackConfig

end Av1Tiling
