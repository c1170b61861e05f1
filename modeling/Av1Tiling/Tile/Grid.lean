import Av1Tiling.Checked
import Av1Tiling.Code.Log2

/-!
# Superblock grids

A frame is coded in superblocks of 64 or 128 samples on a side, and tiles are cut along the edges
of superblocks. How large a tile may be and how many there may be follows from the frame size
alone.
-/

namespace Av1Tiling

/-- The superblocks of a frame. -/
structure SuperblockGrid where
  frameWidth : Nat
  frameHeight : Nat
  /-- Superblocks have 128 samples on a side instead of 64. -/
  large : Bool
  deriving Repr, DecidableEq

/-- Blocks of four by four samples on a side of `length`, which come in pairs. -/
def modeInfoUnits (length : Nat) : Nat :=
  2 * ((length + 7) / 8)

namespace SuperblockGrid

/-- The most samples in a row of a tile. -/
def maxTileWidth : Nat := 4096

/-- The most samples in a tile. -/
def maxTileArea : Nat := 4096 * 2304

/-- The most tile columns of a frame. -/
def maxTileColumns : Nat := 64

/-- The most tile rows of a frame. -/
def maxTileRows : Nat := 64

def miCols (grid : SuperblockGrid) : Nat :=
  modeInfoUnits grid.frameWidth

def miRows (grid : SuperblockGrid) : Nat :=
  modeInfoUnits grid.frameHeight

/-- The logarithm of the number of four by four blocks on the side of a superblock. -/
def superblockShift (grid : SuperblockGrid) : Nat :=
  if grid.large then 5 else 4

/-- The logarithm of the number of samples on the side of a superblock. -/
def sizeLog2 (grid : SuperblockGrid) : Nat :=
  grid.superblockShift + 2

/-- Number of samples on the side of a superblock. -/
def superblockSize (grid : SuperblockGrid) : Nat :=
  2 ^ grid.sizeLog2

/-- Superblocks that cover `units` four by four blocks. -/
def covering (grid : SuperblockGrid) (units : Nat) : Nat :=
  (units + 2 ^ grid.superblockShift - 1) / 2 ^ grid.superblockShift

/-- Number of superblocks in a row. -/
def sbCols (grid : SuperblockGrid) : Nat :=
  grid.covering grid.miCols

/-- Number of superblocks in a column. -/
def sbRows (grid : SuperblockGrid) : Nat :=
  grid.covering grid.miRows

/-- The greatest width of a tile, in superblocks. -/
def maxTileWidthSb (grid : SuperblockGrid) : Nat :=
  maxTileWidth / 2 ^ grid.sizeLog2

/-- The greatest area of a tile, in superblocks. -/
def maxTileAreaSb (grid : SuperblockGrid) : Nat :=
  maxTileArea / 2 ^ (2 * grid.sizeLog2)

/-- The least logarithm of the number of tile columns. -/
def minLog2Cols (grid : SuperblockGrid) : Nat :=
  tileLog2 grid.maxTileWidthSb grid.sbCols

/-- The greatest logarithm of the number of tile columns. -/
def maxLog2Cols (grid : SuperblockGrid) : Nat :=
  tileLog2 1 (min grid.sbCols maxTileColumns)

/-- The greatest logarithm of the number of tile rows. -/
def maxLog2Rows (grid : SuperblockGrid) : Nat :=
  tileLog2 1 (min grid.sbRows maxTileRows)

/-- The least logarithm of the number of tiles. -/
def minLog2Tiles (grid : SuperblockGrid) : Nat :=
  max grid.minLog2Cols (tileLog2 grid.maxTileAreaSb (grid.sbRows * grid.sbCols))

/-- The least logarithm of the number of tile rows next to `2 ^ colsLog2` tile columns. -/
def minLog2Rows (grid : SuperblockGrid) (colsLog2 : Nat) : Nat :=
  grid.minLog2Tiles - colsLog2

/-- The greatest height of explicitly sized tiles of which the widest has `widest` superblocks in a
    row. -/
def maxTileHeightSb (grid : SuperblockGrid) (widest : Nat) : Nat :=
  let area := grid.sbRows * grid.sbCols
  let tileArea := if 0 < grid.minLog2Tiles then area / 2 ^ (grid.minLog2Tiles + 1) else area
  max (tileArea / max widest 1) 1

/-- The grid of a frame, if everything that is derived from it fits 32 bits. -/
def checked (frameWidth frameHeight : Nat) (large : Bool) : Except Fault SuperblockGrid := do
  let grid : SuperblockGrid := { frameWidth, frameHeight, large }
  let _ ← Checked.word (frameWidth + 7)
  let _ ← Checked.word (frameHeight + 7)
  let _ ← Checked.word (grid.sbRows * grid.sbCols)
  return grid

end SuperblockGrid

end Av1Tiling
