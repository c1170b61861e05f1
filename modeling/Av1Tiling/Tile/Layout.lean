import Av1Tiling.Field
import Av1Tiling.ObuError
import Av1Tiling.Tile.Grid

/-!
# Tile layouts

How a frame is cut into tiles: the superblock columns and rows at which tiles start. Tiles are
spaced uniformly, which is coded by two logarithms, or have explicit sizes. `read` and `write` go
through the code of a layout in the same order with the same fields; `ofSuperblockStarts` finds the
layout for given starts, uniform where that is possible.
-/

namespace Av1Tiling

/-- A frame cut into tiles. -/
structure TileLayout where
  grid : SuperblockGrid
  /-- The layout is coded by the logarithms of the numbers of columns and rows. -/
  uniform : Bool
  colsLog2 : Nat
  rowsLog2 : Nat
  /-- Superblock columns at which tiles start, and the end of the last one. -/
  colStarts : List Nat
  /-- Superblock rows at which tiles start, and the end of the last one. -/
  rowStarts : List Nat
  /-- The tile whose statistics carry over to later frames. -/
  contextTile : Nat
  /-- Number of bytes of the size of a tile. -/
  tileSizeBytes : Nat
  deriving Repr, DecidableEq

/-- The samples of one tile. -/
structure TileRect where
  column : Nat
  row : Nat
  x : Nat
  y : Nat
  width : Nat
  height : Nat
  deriving Repr, DecidableEq

/-- Where tiles start that share `count` superblocks evenly between at most `2 ^ log2` of them, and
    the end of the last one. -/
def uniformStarts (count log2 : Nat) : List Nat :=
  let size := max ((count + 2 ^ log2 - 1) / 2 ^ log2) 1
  (List.range ((count + size - 1) / size)).map (· * size) ++ [count]

/-- The sizes of the tiles between consecutive starts. -/
def tileSizes : List Nat → List Nat
  | a :: b :: rest => (b - a) :: tileSizes (b :: rest)
  | _ => []

/-- The greatest of some sizes. -/
def largest (sizes : List Nat) : Nat :=
  sizes.foldl max 0

namespace TileLayout

/-- Number of bytes of a tile size where the header does not say it. -/
def defaultTileSizeBytes : Nat := 4

/-- The most tiles along one axis. -/
def maxTilesPerAxis : Nat :=
  max SuperblockGrid.maxTileColumns SuperblockGrid.maxTileRows

def uniformFlag : Field := .flag "uniform_tile_spacing_flag"

def colsLog2Field (grid : SuperblockGrid) : Field :=
  .increment "increment_tile_cols_log2" grid.minLog2Cols grid.maxLog2Cols

def rowsLog2Field (grid : SuperblockGrid) (colsLog2 : Nat) : Field :=
  .increment "increment_tile_rows_log2" (grid.minLog2Rows colsLog2) grid.maxLog2Rows

/-- One less than the size of a tile at `start`, of `count` superblocks at most `limit`. -/
def sizeField (name : String) (count limit start : Nat) : Field :=
  .nonSymmetric name (min (count - start) limit)

def columnName : String := "width_in_sbs_minus_1"

def rowName : String := "height_in_sbs_minus_1"

/-- One of `tiles` tiles, in the given number of bits. -/
def contextField (bits tiles : Nat) : Except Fault Field := do
  return (Field.bits "context_update_tile_id" bits).withRange 0 (← Checked.sub tiles 1)

def tileSizeBytesField : Field := .bits "tile_size_bytes_minus_1" 2

/-- Number of tile columns. -/
def columns (layout : TileLayout) : Nat :=
  layout.colStarts.length - 1

/-- Number of tile rows. -/
def rows (layout : TileLayout) : Nat :=
  layout.rowStarts.length - 1

/-- Number of tiles. -/
def tileCount (layout : TileLayout) : Nat :=
  layout.columns * layout.rows

/-- Number of bits of the index of a tile. -/
def tileBits (layout : TileLayout) : Nat :=
  layout.colsLog2 + layout.rowsLog2

/-- Both layouts cut the frame at the same places. -/
def sameCuts (a b : TileLayout) : Bool :=
  a.colStarts == b.colStarts && a.rowStarts == b.rowStarts

/-- The samples of a tile, counted row by row. The last column and row end with the frame. -/
def rect? (layout : TileLayout) (tile : Nat) : Option TileRect := do
  if tile < layout.tileCount then
    let size := layout.grid.superblockSize
    let column := tile % layout.columns
    let row := tile / layout.columns
    let x := (← layout.colStarts[column]?) * size
    let y := (← layout.rowStarts[row]?) * size
    let right := min ((← layout.colStarts[column + 1]?) * size) layout.grid.frameWidth
    let bottom := min ((← layout.rowStarts[row + 1]?) * size) layout.grid.frameHeight
    some { column, row, x, y, width := right - x, height := bottom - y }
  else
    none

/-! ## Reading -/

/-- Reads the sizes of up to `left` tiles from `start` on, and yields their starts and the end. -/
def readStarts (name : String) (count limit : Nat) : (left start : Nat) → Read (List Nat)
  | 0, start =>
    if count ≤ start then return [start]
    else throw (.raised (.tooManyExplicitTiles maxTilesPerAxis))
  | left + 1, start => do
    if count ≤ start then
      return [start]
    else
      let size := (← (sizeField name count limit start).read) + 1
      return start :: (← readStarts name count limit left (start + size))

/-- Where tiles start, and the logarithms that count them. -/
structure Cuts where
  colsLog2 : Nat
  rowsLog2 : Nat
  colStarts : List Nat
  rowStarts : List Nat
  deriving Repr, DecidableEq

namespace Cuts

/-- The uniform cuts with the given logarithms. -/
def uniform (grid : SuperblockGrid) (colsLog2 rowsLog2 : Nat) : Cuts where
  colsLog2 := colsLog2
  rowsLog2 := rowsLog2
  colStarts := uniformStarts grid.sbCols colsLog2
  rowStarts := uniformStarts grid.sbRows rowsLog2

/-- The cuts at the given places. -/
def explicit (colStarts rowStarts : List Nat) : Cuts where
  colsLog2 := tileLog2 1 (colStarts.length - 1)
  rowsLog2 := tileLog2 1 (rowStarts.length - 1)
  colStarts := colStarts
  rowStarts := rowStarts

/-- Number of tiles, if it is one that a frame may have. -/
def tileCount (cuts : Cuts) : Except StreamError Nat :=
  let columns := cuts.colStarts.length - 1
  let rows := cuts.rowStarts.length - 1
  if SuperblockGrid.maxTileColumns < columns ∨ SuperblockGrid.maxTileRows < rows then
    .error (.tooManyTiles columns rows)
  else
    .ok (columns * rows)

/-- Number of bits of the index of a tile. -/
def tileBits (cuts : Cuts) : Nat :=
  cuts.colsLog2 + cuts.rowsLog2

def readUniform (grid : SuperblockGrid) : Read Cuts := do
  let colsLog2 ← (colsLog2Field grid).read
  let rowsLog2 ← (rowsLog2Field grid colsLog2).read
  return uniform grid colsLog2 rowsLog2

def readExplicit (grid : SuperblockGrid) : Read Cuts := do
  let colStarts ← readStarts columnName grid.sbCols grid.maxTileWidthSb maxTilesPerAxis 0
  let height := grid.maxTileHeightSb (largest (tileSizes colStarts))
  let rowStarts ← readStarts rowName grid.sbRows height maxTilesPerAxis 0
  return explicit colStarts rowStarts

end Cuts

/-- Reads a layout of `grid`. A single tile needs neither a context tile nor a tile size. -/
def read (grid : SuperblockGrid) : Read TileLayout := do
  let uniform ← uniformFlag.readFlag
  let cuts ← if uniform then Cuts.readUniform grid else Cuts.readExplicit grid
  let tiles ← cuts.tileCount
  let (contextTile, tileSizeBytes) ←
    if 0 < cuts.tileBits then do
      let contextTile ← (← contextField cuts.tileBits tiles).read
      let tileSizeBytes := (← tileSizeBytesField.read) + 1
      pure (contextTile, tileSizeBytes)
    else
      pure (0, defaultTileSizeBytes)
  return {
    grid, uniform, contextTile, tileSizeBytes, colsLog2 := cuts.colsLog2, rowsLog2 := cuts.rowsLog2
    colStarts := cuts.colStarts, rowStarts := cuts.rowStarts }

/-! ## Writing -/

/-- Writes the sizes of up to `left` tiles from `start` on, and yields their starts and the end.
    Where `sizes` falls short the tiles have one superblock; what it has too many of is left out. -/
def writeStarts (name : String) (count limit : Nat) :
    (left start : Nat) → (sizes : List Nat) → Write (List Nat)
  | 0, start, _ =>
    if count ≤ start then return [start]
    else throw (.raised (.tooManyExplicitTiles maxTilesPerAxis))
  | left + 1, start, sizes => do
    if count ≤ start then
      return [start]
    else
      let size := max (sizes.headD 1) 1
      (sizeField name count limit start).write (size - 1)
      return start :: (← writeStarts name count limit left (start + size) sizes.tail)

def writeUniform (layout : TileLayout) : Write Cuts := do
  (colsLog2Field layout.grid).write layout.colsLog2
  (rowsLog2Field layout.grid layout.colsLog2).write layout.rowsLog2
  return Cuts.uniform layout.grid layout.colsLog2 layout.rowsLog2

def writeExplicit (layout : TileLayout) : Write Cuts := do
  let grid := layout.grid
  let colStarts ← writeStarts columnName grid.sbCols grid.maxTileWidthSb maxTilesPerAxis 0
    (tileSizes layout.colStarts)
  let height := grid.maxTileHeightSb (largest (tileSizes colStarts))
  let rowStarts ← writeStarts rowName grid.sbRows height maxTilesPerAxis 0
    (tileSizes layout.rowStarts)
  return Cuts.explicit colStarts rowStarts

/-- Writes a layout. -/
def write (layout : TileLayout) : Write Unit := do
  uniformFlag.writeFlag layout.uniform
  let cuts ← if layout.uniform then layout.writeUniform else layout.writeExplicit
  let tiles ← cuts.tileCount
  if 0 < cuts.tileBits then
    (← contextField cuts.tileBits tiles).write layout.contextTile
    tileSizeBytesField.write (layout.tileSizeBytes - 1)

/-! ## Layouts for given cuts -/

/-- Each number is greater than the one in front of it. -/
def increasing : List Nat → Bool
  | a :: b :: rest => a < b && increasing (b :: rest)
  | _ => true

/-- `starts` with the end of the last tile, if they are starts of tiles on `count` superblocks. -/
def closeStarts (axis : Axis) (starts : List Nat) (count : Nat) : Except LayoutError (List Nat) :=
  if starts.head? ≠ some 0 then
    .error (.firstStart axis)
  else if !increasing starts then
    .error (.notIncreasing axis starts)
  else if starts.any (count ≤ ·) then
    .error (.pastEnd axis starts count)
  else
    .ok (starts ++ [count])

/-- The numbers `low..=high`. -/
def between (low high : Nat) : List Nat :=
  List.range' low (high + 1 - low)

/-- The logarithms of uniform spacing with the given starts, if there are any. -/
def uniformLog2s? (grid : SuperblockGrid) (colStarts rowStarts : List Nat) :
    Option (Nat × Nat) := do
  let colsLog2 ← (between grid.minLog2Cols grid.maxLog2Cols).find? fun log2 =>
    uniformStarts grid.sbCols log2 == colStarts
  let rowsLog2 ← (between (grid.minLog2Rows colsLog2) grid.maxLog2Rows).find? fun log2 =>
    uniformStarts grid.sbRows log2 == rowStarts
  return (colsLog2, rowsLog2)

/-- The layout with the given cuts and nothing else to say. -/
def ofCuts (grid : SuperblockGrid) (uniform : Bool) (cuts : Cuts) : TileLayout where
  grid := grid
  uniform := uniform
  colsLog2 := cuts.colsLog2
  rowsLog2 := cuts.rowsLog2
  colStarts := cuts.colStarts
  rowStarts := cuts.rowStarts
  contextTile := 0
  tileSizeBytes := defaultTileSizeBytes

/-- The layout whose tiles start at the given superblock columns and rows. Spacing is uniform
    wherever that yields these starts; starts that no layout has are an error. -/
def ofSuperblockStarts (grid : SuperblockGrid) (cols rows : List Nat) :
    Except LayoutError TileLayout := do
  let colStarts ← closeStarts .column cols grid.sbCols
  let rowStarts ← closeStarts .row rows grid.sbRows
  if SuperblockGrid.maxTileColumns < cols.length ∨ SuperblockGrid.maxTileRows < rows.length then
    throw (.tooManyTiles cols.length rows.length)
  match uniformLog2s? grid colStarts rowStarts with
  | some (colsLog2, rowsLog2) => return ofCuts grid true (.uniform grid colsLog2 rowsLog2)
  | none =>
    let widest := largest (tileSizes colStarts)
    let tallest := largest (tileSizes rowStarts)
    if grid.maxTileWidthSb < widest then throw (.tooWide widest grid.maxTileWidthSb)
    if grid.maxTileHeightSb widest < tallest then
      throw (.tooTall tallest (grid.maxTileHeightSb widest))
    return ofCuts grid false (.explicit colStarts rowStarts)

/-- The superblock at a sample that has to be the first of it. -/
def superblockAt (axis : Axis) (size start : Nat) : Except LayoutError Nat :=
  if start % size = 0 then .ok (start / size) else .error (.offGrid axis start size)

/-- The layout whose tiles start at the given sample columns and rows. -/
def ofPixelStarts (grid : SuperblockGrid) (xs ys : List Nat) : Except LayoutError TileLayout := do
  let cols ← xs.mapM (superblockAt .column grid.superblockSize)
  let rows ← ys.mapM (superblockAt .row grid.superblockSize)
  ofSuperblockStarts grid cols rows

end TileLayout

end Av1Tiling
